import TcgRs.Analysis.MachineInvariant

/-!
# At most one live translation of a block

Under every interleaving of `tb_find`, `tb_add_jump` and `invalidate` calls the hash table
reaches at most one block that is not invalidated for each pc and flags: a thread that
inserts a block has looked it up in vain under `translate_lock`, and nobody else can have
inserted one since.  What `tb_find` returns was valid when it was checked or allocated.
-/

set_option autoImplicit false

namespace TcgRs.Analysis.UniqueTranslation

open TcgRs.Model TcgRs.Model.X86 TcgRs.Model.Exec TcgRs.Library TranslationBlock
open HashTable CodeLayout ChainSections ThreadSteps MachineInvariant

variable {ι : Type}

/-! ## What a step does to the table -/

/-- The parts of a step that matter for the hash table. -/
inductive TableStep (v v' : View ι) : Prop where
  | same (hs : SameTable v.shared.store v'.shared.store)
      (hk : ∀ i, keyOf v'.shared.store i = keyOf v.shared.store i)
  | alloc {pc flags store i} (hphase : v.phase = .genAlloc pc flags)
      (h : v.shared.store.alloc pc flags 0 = some (store, i)) (hv : v'.shared.store = store)
  | insert {pc flags i} (hphase : v.phase = .genInsert pc flags i)
      (h : v.shared.store.insert i = some v'.shared.store)
  | mark (i : Nat) (hv : v'.shared.store = v.shared.store.markInvalid i)
  | remove {i} (h : v.shared.store.hashRemove i = some v'.shared.store)

theorem table_step_modify {v v' : View ι} {k : Nat} {f : TranslationBlock → TranslationBlock}
    (hv : v'.shared.store = v.shared.store.modify k f)
    (hf : ∀ tb, (f tb).hashNext = tb.hashNext ∧ (f tb).pc = tb.pc ∧ (f tb).flags = tb.flags ∧
      (f tb).invalid = tb.invalid) : TableStep v v' := by
  refine .same ?_ ?_
  · rw [hv]
    refine sameTable_modify _ _ _ (fun tb => ?_)
    rw [(hf tb).1, (hf tb).2.1, (hf tb).2.2.1]
  · intro i
    rw [hv]
    refine map_get_modify _ _ _ _ (fun tb => ?_)
    rw [(hf tb).2.1, (hf tb).2.2.1, (hf tb).2.2.2]

theorem table_step {gen : CodeGen} {m : Machine ι} {t : ι} {v : View ι} (hc : CodeInv m)
    (h : ThreadStep gen t (m.view t) v) : TableStep (m.view t) v := by
  generalize hw : m.view t = w at h
  cases h with
  | alloc h => exact .alloc rfl h rfl
  | insert h => exact .insert rfl h
  | mark htb => exact .mark _ rfl
  | remove h => exact .remove h
  | @emit sh sh' lock cache pc flags i tr h =>
    have hphase : m.phase t = .genEmit pc flags i := congrArg View.phase hw
    have hsh : m.shared = sh := congrArg View.shared hw
    have hem := hc.emitted hphase hsh h
    subst hsh
    exact .same hem.sameTable (hem.map_get _ (fun _ _ _ _ _ _ => rfl))
  | linkNew hsrc hdst hpatch => exact table_step_modify rfl (fun _ => ⟨rfl, rfl, rfl, rfl⟩)
  | push hdst => exact table_step_modify rfl (fun _ => ⟨rfl, rfl, rfl, rfl⟩)
  | take htb => exact table_step_modify rfl (fun _ => ⟨rfl, rfl, rfl, rfl⟩)
  | clear => exact table_step_modify rfl (fun _ => ⟨rfl, rfl, rfl, rfl⟩)
  | takeOut htb => exact table_step_modify rfl (fun _ => ⟨rfl, rfl, rfl, rfl⟩)
  | retain => exact table_step_modify rfl (fun _ => ⟨rfl, rfl, rfl, rfl⟩)
  | _ => exact .same (SameTable.refl _) (fun _ => rfl)

/-- No step makes an existing block answer that did not answer before. -/
theorem answers_of_step {gen : CodeGen} {m : Machine ι} {t : ι} {v : View ι} (hc : CodeInv m)
    (h : ThreadStep gen t (m.view t) v) {i : Nat} (hi : i < m.shared.store.tbs.length)
    {pc : BitVec 64} {flags : BitVec 32} (ha : answers v.shared.store pc flags i = true) :
    answers m.shared.store pc flags i = true := by
  rw [answers_iff] at ha ⊢
  rcases table_step hc h with ⟨-, hk⟩ | ⟨-, halloc, hv⟩ | ⟨-, hins⟩ | ⟨k, hv⟩ | hrem
  · exact (hk i).symm.trans ha
  · obtain ⟨hlen, -, -⟩ := alloc_eq_some halloc
    have hlen' : i ≠ m.shared.store.tbs.length := Nat.ne_of_lt hi
    rw [hv, keyOf_alloc halloc, if_neg (by rw [hlen]; exact hlen')] at ha
    exact ha
  · rw [keyOf_of_sameCore (insert_sameCore hins)] at ha
    exact ha
  · rw [hv, keyOf_markInvalid, Option.map_eq_some_iff] at ha
    obtain ⟨⟨p, f, b⟩, hp, heq⟩ := ha
    simp only [Prod.mk.injEq, Bool.or_eq_false_iff] at heq
    obtain ⟨rfl, rfl, rfl, -⟩ := heq
    exact hp
  · rw [keyOf_of_sameCore (hashRemove_sameCore hrem)] at ha
    exact ha

/-! ## The invariant -/

/-- The pc and flags a thread has looked up in vain under the lock. -/
def missed : Phase → Option (BitVec 64 × BitVec 32)
  | .genAlloc pc flags | .genEmit pc flags _ | .genInsert pc flags _ => some (pc, flags)
  | _ => none

/-- The block a thread has allocated and not yet inserted. -/
def pending : Phase → Option (BitVec 64 × BitVec 32 × Nat)
  | .genEmit pc flags i | .genInsert pc flags i => some (pc, flags, i)
  | _ => none

/-- The table holds at most one valid block for a pc and flags, and none for those a thread
is about to insert. -/
structure UniqueInv (m : Machine ι) (live : List Nat) : Prop where
  table : TableInv m.shared.store live
  unique : ∀ pc flags i j, i ∈ live → j ∈ live → answers m.shared.store pc flags i = true →
    answers m.shared.store pc flags j = true → i = j
  absent : ∀ t pc flags, missed (m.phase t) = some (pc, flags) →
    ∀ i ∈ live, answers m.shared.store pc flags i = false
  fresh : ∀ t pc flags i, pending (m.phase t) = some (pc, flags, i) → i ∉ live ∧
    ∃ tb, m.shared.store.get i = some tb ∧ tb.pc = pc ∧ tb.flags = flags

theorem holdsLock_of_missed {p : Phase} {pc : BitVec 64} {flags : BitVec 32}
    (h : missed p = some (pc, flags)) : holdsLock p = true := by
  cases p with
  | genAlloc pc flags => rfl
  | genEmit pc flags i => rfl
  | genInsert pc flags i => rfl
  | _ => cases h

theorem missed_of_pending {p : Phase} {pc : BitVec 64} {flags : BitVec 32} {i : Nat}
    (h : pending p = some (pc, flags, i)) : missed p = some (pc, flags) := by
  cases p with
  | genEmit pc' flags' i' =>
    simp only [pending, Option.some.injEq, Prod.mk.injEq] at h
    obtain ⟨rfl, rfl, -⟩ := h
    rfl
  | genInsert pc' flags' i' =>
    simp only [pending, Option.some.injEq, Prod.mk.injEq] at h
    obtain ⟨rfl, rfl, -⟩ := h
    rfl
  | _ => cases h

/-- A thread comes to have missed a block by its lookup under the lock, and only so. -/
theorem missed_step {gen : CodeGen} {t : ι} {v v' : View ι} (h : ThreadStep gen t v v')
    {pc : BitVec 64} {flags : BitVec 32} (hm : missed v'.phase = some (pc, flags)) :
    missed v.phase = some (pc, flags) ∨
      (v.shared.store.lookup pc flags = some none ∧ v'.shared = v.shared) := by
  cases h with
  | doubleCheckMiss h =>
    simp only [missed, Option.some.injEq, Prod.mk.injEq] at hm
    obtain ⟨rfl, rfl⟩ := hm
    exact Or.inr ⟨h, rfl⟩
  | alloc h => exact Or.inl hm
  | emit h => exact Or.inl hm
  | _ => cases hm

/-- A thread comes to have a block to insert by allocating it. -/
theorem pending_step {gen : CodeGen} {t : ι} {v v' : View ι} (h : ThreadStep gen t v v')
    {pc : BitVec 64} {flags : BitVec 32} {i : Nat} (hp : pending v'.phase = some (pc, flags, i)) :
    pending v.phase = some (pc, flags, i) ∨
      ∃ store, v.shared.store.alloc pc flags 0 = some (store, i) ∧ v'.shared.store = store := by
  cases h with
  | alloc h =>
    simp only [pending, Option.some.injEq, Prod.mk.injEq] at hp
    obtain ⟨rfl, rfl, rfl⟩ := hp
    exact Or.inr ⟨_, h, rfl⟩
  | emit h => exact Or.inl hp
  | _ => cases hp

/-- What a block was translated for is never changed. -/
theorem block_step {gen : CodeGen} {m : Machine ι} {t : ι} {v : View ι} (hc : CodeInv m)
    (h : ThreadStep gen t (m.view t) v) {i : Nat} {tb : TranslationBlock}
    (htb : m.shared.store.get i = some tb) :
    ∃ tb', v.shared.store.get i = some tb' ∧ tb'.pc = tb.pc ∧ tb'.flags = tb.flags := by
  have hkey : keyOf m.shared.store i = some (tb.pc, tb.flags, tb.invalid) := by simp [keyOf, htb]
  have hread : ∀ b, keyOf v.shared.store i = some (tb.pc, tb.flags, b) →
      ∃ tb', v.shared.store.get i = some tb' ∧ tb'.pc = tb.pc ∧ tb'.flags = tb.flags := by
    intro b hb
    obtain ⟨tb', htb', heq⟩ := Option.map_eq_some_iff.mp hb
    simp only [Prod.mk.injEq] at heq
    exact ⟨tb', htb', heq.1, heq.2.1⟩
  rcases table_step hc h with ⟨-, hk⟩ | ⟨-, halloc, hv⟩ | ⟨-, hins⟩ | ⟨k, hv⟩ | hrem
  · exact hread _ ((hk i).trans hkey)
  · have hlt := get_eq_some_lt htb
    obtain ⟨hlen, -, -⟩ := alloc_eq_some halloc
    refine hread tb.invalid ?_
    rw [hv, keyOf_alloc halloc, if_neg (by rw [hlen]; exact Nat.ne_of_lt hlt)]
    exact hkey
  · exact hread _ ((keyOf_of_sameCore (insert_sameCore hins) i).trans hkey)
  · refine hread (tb.invalid || decide (i = k)) ?_
    have hkey' : keyOf (m.view t).shared.store i = some (tb.pc, tb.flags, tb.invalid) := hkey
    rw [hv, keyOf_markInvalid, hkey']
    rfl
  · exact hread _ ((keyOf_of_sameCore (hashRemove_sameCore hrem) i).trans hkey)

/-- The table after one step: no new block, or the one its thread had to insert. -/
theorem UniqueInv.live_step {gen : CodeGen} {m : Machine ι} {t : ι} {v : View ι}
    {live : List Nat} (hi : UniqueInv m live) (hc : CodeInv m)
    (h : ThreadStep gen t (m.view t) v) :
    ∃ live', TableInv v.shared.store live' ∧
      ((∀ i ∈ live', i ∈ live) ∨
        ∃ pc flags k, m.phase t = .genInsert pc flags k ∧ live' = k :: live ∧
          v.shared.store.tbs.length = m.shared.store.tbs.length) := by
  rcases table_step hc h with ⟨hs, -⟩ | ⟨-, halloc, hv⟩ | ⟨hphase, hins⟩ | ⟨k, hv⟩ | hrem
  · exact ⟨live, hi.table.of_same hs, Or.inl (fun i hi => hi)⟩
  · refine ⟨live, ?_, Or.inl (fun i hi => hi)⟩
    rw [hv]
    exact hi.table.alloc halloc
  · have hphase' : m.phase t = .genInsert _ _ _ := hphase
    have hfresh := hi.fresh t _ _ _ (by rw [hphase']; rfl)
    exact ⟨_, hi.table.insert hfresh.1 hins, Or.inr ⟨_, _, _, hphase', rfl,
      (insert_sameCore hins).length_eq⟩⟩
  · refine ⟨live, ?_, Or.inl (fun i hi => hi)⟩
    rw [hv]
    exact hi.table.of_same (sameTable_modify _ _ _ (fun _ => rfl))
  · next k =>
    have hlt : k < m.shared.store.tbs.length := by
      by_contra hge
      have hnone : m.shared.store.get k = none := List.getElem?_eq_none (by omega)
      simp [TbStore.hashRemove, Machine.view, hnone] at hrem
    obtain ⟨s', hs', htab⟩ := hi.table.hashRemove hlt
    have heq : some s' = some v.shared.store := hs'.symm.trans hrem
    injection heq with heq
    exact ⟨live.erase k, heq ▸ htab, Or.inl (fun i hi => List.mem_of_mem_erase hi)⟩

variable [DecidableEq ι]

theorem UniqueInv.step {gen : CodeGen} {m : Machine ι} {t : ι} {v : View ι} {live : List Nat}
    (hi : UniqueInv m live) (hc : CodeInv m) (hlock : LockInv m)
    (h : ThreadStep gen t (m.view t) v) : ∃ live', UniqueInv (m.update t v) live' := by
  obtain ⟨live', htab, hlive⟩ := hi.live_step hc h
  -- an old block of the table that answers now answered before
  have hback : ∀ pc flags i, i ∈ live → answers v.shared.store pc flags i = true →
      answers m.shared.store pc flags i = true :=
    fun pc flags i hmem ha => answers_of_step hc h (hi.table.exist i hmem) ha
  -- only the owner of the lock has missed a block
  have hother : ∀ u pc flags, u ≠ t → missed (m.phase u) = some (pc, flags) →
      holdsLock (m.phase t) = false := by
    intro u pc flags hut hmiss
    have hown := hlock u (holdsLock_of_missed hmiss)
    by_contra hholds
    have hown' := hlock t (Bool.not_eq_false _ ▸ hholds)
    rw [hown] at hown'
    exact hut (Option.some.inj hown')
  refine ⟨live', htab, ?_, ?_, ?_⟩
  · intro pc flags i j hmi hmj hai haj
    rcases hlive with hsub | ⟨pc₀, flags₀, k, hphase, rfl, -⟩
    · exact hi.unique pc flags i j (hsub i hmi) (hsub j hmj) (hback _ _ _ (hsub i hmi) hai)
        (hback _ _ _ (hsub j hmj) haj)
    · -- the inserted block answers only for what its thread has missed
      have hpend : pending (m.phase t) = some (pc₀, flags₀, k) := by rw [hphase]; rfl
      obtain ⟨-, tb, htb, hpc, hflags⟩ := hi.fresh t pc₀ flags₀ k hpend
      have hnew : answers v.shared.store pc flags k = true → pc = pc₀ ∧ flags = flags₀ := by
        intro ha
        have hold := answers_of_step hc h (get_eq_some_lt htb) ha
        rw [answers_iff, keyOf, htb, Option.map_some, Option.some.injEq, Prod.mk.injEq,
          Prod.mk.injEq] at hold
        exact ⟨hold.1.symm.trans hpc, hold.2.1.symm.trans hflags⟩
      have habs := hi.absent t pc₀ flags₀ (missed_of_pending hpend)
      have hclash : ∀ j ∈ live, answers v.shared.store pc flags k = true →
          answers v.shared.store pc flags j = true → False := by
        intro j hmj hak haj
        obtain ⟨rfl, rfl⟩ := hnew hak
        have hold := hback _ _ _ hmj haj
        rw [habs j hmj] at hold
        cases hold
      rcases List.mem_cons.mp hmi with hik | hmi'
      · subst hik
        rcases List.mem_cons.mp hmj with hjk | hmj'
        · exact hjk.symm
        · exact absurd haj (fun haj => hclash j hmj' hai haj)
      · rcases List.mem_cons.mp hmj with hjk | hmj'
        · subst hjk
          exact absurd hai (fun hai => hclash i hmi' haj hai)
        · exact hi.unique pc flags i j hmi' hmj' (hback _ _ _ hmi' hai) (hback _ _ _ hmj' haj)
  · intro u pc flags hmiss i hmem
    by_contra ha
    rw [Bool.not_eq_false] at ha
    have hold : ∀ w, missed (m.phase w) = some (pc, flags) → i ∈ live → False := by
      intro w hw hmem
      have := hback _ _ _ hmem ha
      rw [hi.absent w pc flags hw i hmem] at this
      cases this
    by_cases hut : u = t
    · subst hut
      rw [update_phase_self] at hmiss
      rcases hlive with hsub | ⟨pc₀, flags₀, k, hphase, -, -⟩
      · rcases missed_step h hmiss with hmiss' | ⟨hnone, hsame⟩
        · exact hold u hmiss' (hsub i hmem)
        · have hfalse := lookup_none hi.table hnone i (hsub i hmem)
          have ha' : answers m.shared.store pc flags i = true := hback _ _ _ (hsub i hmem) ha
          rw [hfalse] at ha'
          cases ha'
      · -- the thread that inserts has nothing left to insert
        have hcontra : missed v.phase = none := by
          generalize hw : m.view u = w at h
          have hwp : w.phase = .genInsert pc₀ flags₀ k := by rw [← hw]; exact hphase
          cases h with
          | insert h => rfl
          | _ => cases hwp
        rw [hcontra] at hmiss
        cases hmiss
    · rw [update_phase_of_ne m v hut] at hmiss
      have hnot := hother u pc flags hut hmiss
      rcases hlive with hsub | ⟨pc₀, flags₀, k, hphase, -, -⟩
      · exact hold u hmiss (hsub i hmem)
      · rw [hphase] at hnot
        cases hnot
  · intro u pc flags i hpend
    by_cases hut : u = t
    · subst hut
      rw [update_phase_self] at hpend
      rcases pending_step h hpend with hpend' | ⟨store, halloc, hstore⟩
      · obtain ⟨hni, tb, htb, hpc, hflags⟩ := hi.fresh u pc flags i hpend'
        obtain ⟨tb', htb', hpc', hflags'⟩ := block_step hc h htb
        refine ⟨?_, tb', htb', hpc'.trans hpc, hflags'.trans hflags⟩
        rcases hlive with hsub | ⟨pc₀, flags₀, k, hphase, -, -⟩
        · exact fun hmem => hni (hsub i hmem)
        · have hcontra : pending v.phase = none := by
            generalize hw : m.view u = w at h
            have hwp : w.phase = .genInsert pc₀ flags₀ k := by rw [← hw]; exact hphase
            cases h with
            | insert h => rfl
            | _ => cases hwp
          rw [hcontra] at hpend
          cases hpend
      · obtain ⟨hlen, -, -⟩ := alloc_eq_some halloc
        have hget : v.shared.store.get i = some (TranslationBlock.new pc flags 0) := by
          rw [hstore, get_alloc halloc, if_pos hlen]
        refine ⟨?_, _, hget, rfl, rfl⟩
        have hlen' : i = m.shared.store.tbs.length := hlen
        rcases hlive with hsub | ⟨pc₀, flags₀, k, hphase, -, -⟩
        · intro hmem
          have := hi.table.exist i (hsub i hmem)
          omega
        · generalize hw : m.view u = w at h
          have hwp : w.phase = .genInsert pc₀ flags₀ k := by rw [← hw]; exact hphase
          cases h with
          | insert h => cases hpend
          | _ => cases hwp
    · rw [update_phase_of_ne m v hut] at hpend
      obtain ⟨hni, tb, htb, hpc, hflags⟩ := hi.fresh u pc flags i hpend
      obtain ⟨tb', htb', hpc', hflags'⟩ := block_step hc h htb
      refine ⟨?_, tb', htb', hpc'.trans hpc, hflags'.trans hflags⟩
      have hnot := hother u pc flags hut (missed_of_pending hpend)
      rcases hlive with hsub | ⟨pc₀, flags₀, k, hphase, -, -⟩
      · exact fun hmem => hni (hsub i hmem)
      · rw [hphase] at hnot
        cases hnot

theorem Run.uniqueInv {gen : CodeGen} {sh₀ : Shared} {σ : Nat → Machine ι} {N : Nat}
    (hrun : Run gen (Machine.initial sh₀) σ N) (h₀ : Fresh sh₀) {k : Nat} (hk : k ≤ N) :
    ∃ live, UniqueInv (σ k) live := by
  induction k with
  | zero =>
    rw [hrun.start]
    refine ⟨[], ⟨List.nodup_nil, by simp, fun b => ?_⟩, ?_, ?_, ?_⟩
    · simp [Machine.initial, h₀.store_eq, chainOf]
    · intro pc flags i j hi
      cases hi
    · intro t pc flags h
      cases h
    · intro t pc flags i h
      cases h
  | succ k ih =>
    obtain ⟨live, hu⟩ := ih (by omega)
    obtain ⟨hc, hl⟩ := MachineInvariant.Run.codeInv hrun h₀ (by omega : k ≤ N)
    obtain ⟨move, hmove⟩ := hrun.step k (by omega)
    obtain ⟨v, hv, heq⟩ := stepMachine_cases hmove
    rw [heq]
    exact hu.step hc hl hv

/-! ## What `tb_find` returns -/

/-- The arguments of the `tb_find` call a thread is in. -/
def findCall : Phase → Option (BitVec 64 × BitVec 32)
  | .findCache pc flags | .findLookup pc flags | .genCheck pc flags | .genLock pc flags
  | .genLookup pc flags | .genAlloc pc flags | .genEmit pc flags _ | .genInsert pc flags _
  | .genUnlock pc flags _ | .found pc flags _ => some (pc, flags)
  | _ => none

/-- The block that a `tb_find` call has found or allocated. -/
def carries : Phase → Option (BitVec 64 × BitVec 32 × Nat)
  | .genEmit pc flags i | .genInsert pc flags i | .genUnlock pc flags i
  | .found pc flags (some i) => some (pc, flags, i)
  | _ => none

theorem findCall_of_carries {p : Phase} {pc : BitVec 64} {flags : BitVec 32} {i : Nat}
    (h : carries p = some (pc, flags, i)) : findCall p = some (pc, flags) := by
  unfold carries at h
  split at h
  · simp only [Option.some.injEq, Prod.mk.injEq] at h
    obtain ⟨rfl, rfl, -⟩ := h
    rfl
  · simp only [Option.some.injEq, Prod.mk.injEq] at h
    obtain ⟨rfl, rfl, -⟩ := h
    rfl
  · simp only [Option.some.injEq, Prod.mk.injEq] at h
    obtain ⟨rfl, rfl, -⟩ := h
    rfl
  · simp only [Option.some.injEq, Prod.mk.injEq] at h
    obtain ⟨rfl, rfl, -⟩ := h
    rfl
  · cases h

omit [DecidableEq ι] in
/-- A call comes by its block through a check that it answers, or by allocating it. -/
theorem carries_step {gen : CodeGen} {t : ι} {v v' : View ι} {live : List Nat}
    (htab : TableInv v.shared.store live) (h : ThreadStep gen t v v') {pc : BitVec 64}
    {flags : BitVec 32} {i : Nat} (hc : carries v'.phase = some (pc, flags, i)) :
    carries v.phase = some (pc, flags, i) ∨ answers v'.shared.store pc flags i = true := by
  cases h with
  | cacheHit h =>
    simp only [carries, Option.some.injEq, Prod.mk.injEq] at hc
    obtain ⟨rfl, rfl, rfl⟩ := hc
    exact Or.inr (cacheHit_answers h)
  | lookupHit h =>
    simp only [carries, Option.some.injEq, Prod.mk.injEq] at hc
    obtain ⟨rfl, rfl, rfl⟩ := hc
    exact Or.inr (lookup_some htab h)
  | doubleCheckHit h =>
    simp only [carries, Option.some.injEq, Prod.mk.injEq] at hc
    obtain ⟨rfl, rfl, rfl⟩ := hc
    exact Or.inr (lookup_some htab h)
  | alloc h =>
    simp only [carries, Option.some.injEq, Prod.mk.injEq] at hc
    obtain ⟨rfl, rfl, rfl⟩ := hc
    refine Or.inr (answers_iff.mpr ?_)
    simp only
    rw [keyOf_alloc h, if_pos rfl]
  | emit h => exact Or.inl hc
  | insert h => exact Or.inl hc
  | unlock => exact Or.inl hc
  | _ => cases hc

/-- The block is on one of the bucket chains. -/
def InTable (s : TbStore) (i : Nat) : Prop :=
  ∃ b l, Linked (hashNextOf s) (s.hash b) l ∧ i ∈ l

theorem mem_live_of_inTable {s : TbStore} {live : List Nat} (h : TableInv s live) {i : Nat}
    (hi : InTable s i) : i ∈ live := by
  obtain ⟨b, l, hl, hmem⟩ := hi
  rw [← (h.linked b).unique hl] at hmem
  exact (mem_chainOf.mp hmem).1

/-- Along every run, each block a call carries was a valid block for its arguments at some
moment of that call. -/
theorem Run.carried_valid {gen : CodeGen} {sh₀ : Shared} {σ : Nat → Machine ι} {N : Nat}
    (hrun : Run gen (Machine.initial sh₀) σ N) (h₀ : Fresh sh₀) {k : Nat} (hk : k ≤ N) (t : ι)
    (pc : BitVec 64) (flags : BitVec 32) (i : Nat)
    (hcar : carries ((σ k).phase t) = some (pc, flags, i)) :
    (∃ tb, (σ k).shared.store.get i = some tb ∧ tb.pc = pc ∧ tb.flags = flags) ∧
      ∃ j, j ≤ k ∧ (∀ l, j ≤ l → l ≤ k → findCall ((σ l).phase t) = some (pc, flags)) ∧
        answers (σ j).shared.store pc flags i = true := by
  induction k with
  | zero =>
    rw [hrun.start] at hcar
    cases hcar
  | succ k ih =>
    obtain ⟨hc, -⟩ := MachineInvariant.Run.codeInv hrun h₀ (by omega : k ≤ N)
    obtain ⟨live, hu⟩ := Run.uniqueInv hrun h₀ (by omega : k ≤ N)
    obtain ⟨move, hmove⟩ := hrun.step k (by omega)
    obtain ⟨v, hv, heq⟩ := stepMachine_cases hmove
    -- the call carried the block before this step, or this step made it answer
    have hcases : carries ((σ k).phase t) = some (pc, flags, i) ∨
        answers (σ (k + 1)).shared.store pc flags i = true := by
      by_cases ht : t = move.1
      · subst ht
        rw [heq, update_phase_self] at hcar
        rcases carries_step hu.table hv hcar with h | h
        · exact Or.inl h
        · exact Or.inr (by rw [heq]; exact h)
      · rw [heq, update_phase_of_ne _ v ht] at hcar
        exact Or.inl hcar
    rcases hcases with hold | hnow
    · obtain ⟨⟨tb, htb, hpc, hflags⟩, j, hj, hcall, hans⟩ := ih (by omega) hold
      obtain ⟨tb', htb', hpc', hflags'⟩ := block_step hc hv htb
      refine ⟨⟨tb', ?_, hpc'.trans hpc, hflags'.trans hflags⟩, j, by omega, ?_, hans⟩
      · rw [heq]
        exact htb'
      · intro l hjl hlk
        rcases Nat.lt_or_ge k l with hkl | hkl
        · have hl : l = k + 1 := by omega
          rw [hl]
          exact findCall_of_carries hcar
        · exact hcall l hjl hkl
    · refine ⟨?_, k + 1, le_rfl, ?_, hnow⟩
      · rw [answers_iff] at hnow
        obtain ⟨tb, htb, hk'⟩ := Option.map_eq_some_iff.mp hnow
        simp only [Prod.mk.injEq] at hk'
        exact ⟨tb, htb, hk'.1, hk'.2.1⟩
      · intro l hkl hlk
        have hl : l = k + 1 := by omega
        rw [hl]
        exact findCall_of_carries hcar

/-- For any number of threads and any interleaving, the table reaches at most one valid block
for each pc and flags, and what `tb_find` returns has this pc and these flags and was valid
at a moment of the call. -/
theorem one_live_translation (gen : CodeGen) (sh₀ : Shared) (h₀ : Fresh sh₀)
    (σ : Nat → Machine ι) (N : Nat) (hrun : Run gen (Machine.initial sh₀) σ N) (k : Nat)
    (hk : k ≤ N) :
    (∀ i j tb tb', InTable (σ k).shared.store i → InTable (σ k).shared.store j →
      (σ k).shared.store.get i = some tb → (σ k).shared.store.get j = some tb' →
      tb.invalid = false → tb'.invalid = false → tb.pc = tb'.pc → tb.flags = tb'.flags → i = j) ∧
    (∀ t pc flags i, (σ k).phase t = .found pc flags (some i) →
      (∃ tb, (σ k).shared.store.get i = some tb ∧ tb.pc = pc ∧ tb.flags = flags) ∧
      ∃ j, j ≤ k ∧ (∀ l, j ≤ l → l ≤ k → findCall ((σ l).phase t) = some (pc, flags)) ∧
        ∃ tb, (σ j).shared.store.get i = some tb ∧ tb.pc = pc ∧ tb.flags = flags ∧
          tb.invalid = false) := by
  obtain ⟨live, hu⟩ := Run.uniqueInv hrun h₀ hk
  refine ⟨?_, ?_⟩
  · intro i j tb tb' hi hj htb htb' hv hv' hpc hflags
    refine hu.unique tb.pc tb.flags i j (mem_live_of_inTable hu.table hi)
      (mem_live_of_inTable hu.table hj) ?_ ?_
    · simp [answers_iff, keyOf, htb, hv]
    · simp [answers_iff, keyOf, htb', hv', hpc, hflags]
  · intro t pc flags i hfound
    obtain ⟨hblock, j, hj, hcall, hans⟩ :=
      Run.carried_valid hrun h₀ hk t pc flags i (by rw [hfound]; rfl)
    refine ⟨hblock, j, hj, hcall, ?_⟩
    rw [answers_iff] at hans
    obtain ⟨tb, htb, hkey⟩ := Option.map_eq_some_iff.mp hans
    simp only [Prod.mk.injEq] at hkey
    exact ⟨tb, htb, hkey.1, hkey.2.1, hkey.2.2⟩

/-- Two threads miss on the same pc together; the second finds the first one's block under
the lock. -/
def bothMiss : List (Bool × Choice) :=
  [(true, .find 0 0), (true, .proceed), (true, .proceed), (true, .proceed),
    (false, .find 0 0), (false, .proceed), (false, .proceed), (false, .proceed),
    (true, .proceed), (true, .proceed), (true, .proceed),
    (true, .translation ⟨⟨[.gotoTb 0], 0⟩, 4⟩), (true, .proceed), (true, .proceed),
    (false, .proceed), (false, .proceed)]

theorem one_live_translation_bothMiss :
    ∃ m, runMoves ⟨0, 5⟩ (Machine.initial newEnv) bothMiss = some m ∧
      m.phase true = .found 0 0 (some 0) ∧ m.phase false = .found 0 0 (some 0) ∧
      ∀ i j tb tb', InTable m.shared.store i → InTable m.shared.store j →
        m.shared.store.get i = some tb → m.shared.store.get j = some tb' →
        tb.invalid = false → tb'.invalid = false → tb.pc = tb'.pc → tb.flags = tb'.flags →
        i = j := by
  have hphase : (runMoves ⟨0, 5⟩ (Machine.initial newEnv) bothMiss).map
      (fun m => (m.phase true, m.phase false)) =
      some (.found 0 0 (some 0), .found 0 0 (some 0)) := by
    decide
  obtain ⟨m, hm, hp⟩ := Option.map_eq_some_iff.mp hphase
  obtain ⟨hp₁, hp₂⟩ := Prod.mk.inj hp
  obtain ⟨hrun, hlast⟩ := run_of_moves hm
  refine ⟨m, hm, hp₁, hp₂, ?_⟩
  have h := (one_live_translation ⟨0, 5⟩ newEnv newEnv_fresh _ _ hrun _ le_rfl).1
  rw [hlast] at h
  exact h

end TcgRs.Analysis.UniqueTranslation
