import TcgRs.Library.Schedule
import TcgRs.Analysis.ThreadSteps
import TcgRs.Analysis.ChainSections

/-!
# Lock discipline and code layout of the concurrent machine

At most one thread is between taking and releasing `translate_lock`, so at most one block is
being translated; the code of the blocks keeps its layout under every interleaving, and the
offset a thread read before it locks the source stays the offset of that jump.
-/

set_option autoImplicit false

namespace TcgRs.Analysis.MachineInvariant

open TcgRs.Model TcgRs.Model.X86 TcgRs.Model.Exec TcgRs.Library
open HashTable JumpPatching CodeLayout ChainSections ThreadSteps

variable {ι : Type} [DecidableEq ι]

/-! ## Runs of the machine -/

/-- The first `N` steps of `σ` are steps of the machine, from `m₀` on. -/
structure Run (gen : CodeGen) (m₀ : Machine ι) (σ : Nat → Machine ι) (N : Nat) : Prop where
  start : σ 0 = m₀
  step : ∀ k, k < N → ∃ move, stepMachine gen (σ k) move = some (σ (k + 1))

/-- A schedule that runs through is a run. -/
theorem run_of_moves {gen : CodeGen} {m₀ m : Machine ι} {moves : List (ι × Choice)}
    (h : runMoves gen m₀ moves = some m) :
    Run gen m₀ (trace (stepMachine gen) m₀ moves) moves.length ∧
      trace (stepMachine gen) m₀ moves moves.length = m :=
  ⟨⟨trace_zero _ _ _, fun k hk => ⟨moves[k], trace_step h hk⟩⟩, trace_length h⟩

/-- A step of the machine is a step of one thread. -/
theorem stepMachine_cases {gen : CodeGen} {m m' : Machine ι} {move : ι × Choice}
    (h : stepMachine gen m move = some m') :
    ∃ v, ThreadStep gen move.1 (m.view move.1) v ∧ m' = m.update move.1 v := by
  unfold stepMachine at h
  obtain ⟨v, hv, rfl⟩ := Option.map_eq_some_iff.mp h
  exact ⟨v, stepThread_cases hv, rfl⟩

@[simp] theorem update_phase_self (m : Machine ι) (t : ι) (v : View ι) :
    (m.update t v).phase t = v.phase := by
  simp [Machine.update]

theorem update_phase_of_ne (m : Machine ι) {t u : ι} (v : View ι) (h : u ≠ t) :
    (m.update t v).phase u = m.phase u := by
  simp [Machine.update, h]

/-! ## The lock -/

/-- The phases between taking and releasing `translate_lock`. -/
def holdsLock : Phase → Bool
  | .genLookup _ _ | .genAlloc _ _ | .genEmit _ _ _ | .genInsert _ _ _ | .genUnlock _ _ _ => true
  | _ => false

omit [DecidableEq ι] in
/-- A step keeps the lock as it is, takes it when it is free, or releases it. -/
theorem lock_step {gen : CodeGen} {t : ι} {v v' : View ι} (h : ThreadStep gen t v v') :
    (v'.lock = v.lock ∧ (holdsLock v'.phase = true → holdsLock v.phase = true)) ∨
      (v.lock = none ∧ v'.lock = some t) ∨
      (holdsLock v.phase = true ∧ v'.lock = none ∧ holdsLock v'.phase = false) := by
  cases h with
  | acquire => exact Or.inr (Or.inl ⟨rfl, rfl⟩)
  | doubleCheckHit h => exact Or.inr (Or.inr ⟨rfl, rfl, rfl⟩)
  | unlock => exact Or.inr (Or.inr ⟨rfl, rfl, rfl⟩)
  | _ => exact Or.inl ⟨rfl, by simp [holdsLock]⟩

/-- Only the owner of the lock is in a phase that holds it. -/
def LockInv (m : Machine ι) : Prop := ∀ t, holdsLock (m.phase t) = true → m.lock = some t

theorem LockInv.step {gen : CodeGen} {m : Machine ι} {t : ι} {v : View ι} (hi : LockInv m)
    (h : ThreadStep gen t (m.view t) v) : LockInv (m.update t v) := by
  intro u hu
  by_cases hut : u = t
  · subst hut
    rw [update_phase_self] at hu
    rcases lock_step h with ⟨hlock, hphase⟩ | ⟨-, hlock⟩ | ⟨-, -, hphase⟩
    · exact hlock.trans (hi u (hphase hu))
    · exact hlock
    · rw [hphase] at hu
      cases hu
  · rw [update_phase_of_ne m v hut] at hu
    have hown := hi u hu
    rcases lock_step h with ⟨hlock, -⟩ | ⟨hfree, -⟩ | ⟨hholds, -⟩
    · exact hlock.trans hown
    · have hcontra : m.lock = none := hfree
      rw [hown] at hcontra
      cases hcontra
    · have hcontra := hi t hholds
      rw [hown] at hcontra
      exact absurd (Option.some.inj hcontra) hut

/-! ## The layout -/

/-- How a step moves code: not at all, by allocating a block without code, or by filling in
the code of the block that its thread is translating. -/
inductive CodeStep (gen : CodeGen) (v v' : View ι) : Prop where
  | same (hp : SamePlacement v.shared.store v'.shared.store)
      (hsize : v'.shared.buf.size = v.shared.buf.size)
      (hoff : v'.shared.buf.offset = v.shared.buf.offset)
      (hphase : ∀ pc flags i, v'.phase ≠ .genEmit pc flags i)
  | alloc {pc flags store i} (hphase : v.phase = .genAlloc pc flags)
      (h : v.shared.store.alloc pc flags 0 = some (store, i))
      (hv : v'.shared = { v.shared with store := store })
      (hphase' : v'.phase = .genEmit pc flags i)
  | emit {pc flags i tr} (hphase : v.phase = .genEmit pc flags i)
      (h : v.shared.emitTb gen i tr = some v'.shared)
      (hphase' : v'.phase = .genInsert pc flags i)

theorem resetJump_size_offset {tb : TranslationBlock} {buf buf' : CodeBuffer} {slot : Slot}
    (h : Shared.resetJump tb buf slot = some buf') :
    buf'.size = buf.size ∧ buf'.offset = buf.offset := by
  unfold Shared.resetJump at h
  split at h
  · exact patchJump_size_offset h
  · injection h with h
    rw [h]
    exact ⟨rfl, rfl⟩

omit [DecidableEq ι] in
theorem code_step {gen : CodeGen} {t : ι} {v v' : View ι} (h : ThreadStep gen t v v') :
    CodeStep gen v v' := by
  cases h with
  | alloc h => exact .alloc rfl h rfl rfl
  | emit h => exact .emit rfl h rfl
  | insert h => exact .same (samePlacement_of_sameCore (insert_sameCore h)) rfl rfl (by simp)
  | linkNew hsrc hdst hpatch =>
    obtain ⟨hsize, hoff⟩ := patchJump_size_offset hpatch
    exact .same (setJmpDest_placement _ _ _ _) hsize hoff (by simp)
  | push hdst => exact .same (pushIncoming_placement _ _ _ _) rfl rfl (by simp)
  | mark htb => exact .same (markInvalid_placement _ _) rfl rfl (by simp)
  | take htb => exact .same (clearJmpList_placement _ _) rfl rfl (by simp)
  | reset hsrc hbuf =>
    obtain ⟨hsize, hoff⟩ := resetJump_size_offset hbuf
    exact .same (SamePlacement.refl _) hsize hoff (by simp)
  | clear => exact .same (setJmpDest_placement _ _ _ _) rfl rfl (by simp)
  | takeOut htb => exact .same (clearJmpDests_placement _ _) rfl rfl (by simp)
  | retain => exact .same (retainIncoming_placement _ _ _ _) rfl rfl (by simp)
  | remove h => exact .same (samePlacement_of_sameCore (hashRemove_sameCore h)) rfl rfl (by simp)
  | _ => exact .same (SamePlacement.refl _) rfl rfl (by simp)

/-- The code has its layout, the block a thread is translating has no jumps yet, and the
offset a thread carries to the source's lock is the offset of that jump. -/
structure CodeInv (m : Machine ι) : Prop where
  layout : Layout m.shared
  emitting : ∀ t pc flags i, m.phase t = .genEmit pc flags i →
    ∃ tb, m.shared.store.get i = some tb ∧ ∀ n, tb.jmpInsnOffset n = none
  site : ∀ t src slot dst off, m.phase t = .addLink src slot dst off →
    jumpSite m.shared.store src slot = some off

omit [DecidableEq ι] in
theorem addLink_step {gen : CodeGen} {t : ι} {v v' : View ι} (h : ThreadStep gen t v v')
    {src : Nat} {slot : Slot} {dst off : Nat} (hphase : v'.phase = .addLink src slot dst off) :
    jumpSite v.shared.store src slot = some off ∧ v'.shared = v.shared ∧
      flagOf v.shared.store dst = some false := by
  cases h with
  | addPass hsrc hoff hdst hvalid =>
    injection hphase with h1 h2 h3 h4
    subst h1 h2 h3 h4
    refine ⟨jumpSite_eq_some.mpr ⟨_, _, hsrc, hoff, rfl⟩, rfl, ?_⟩
    rw [flagOf_of_get hdst, hvalid]
  | _ => cases hphase

theorem CodeInv.step {gen : CodeGen} {m : Machine ι} {t : ι} {v : View ι} (hi : CodeInv m)
    (hlock : LockInv m) (h : ThreadStep gen t (m.view t) v) : CodeInv (m.update t v) := by
  -- a jump site survives every step
  have hsites : ∀ src slot off, jumpSite m.shared.store src slot = some off →
      jumpSite v.shared.store src slot = some off := by
    intro src slot off hsite
    rcases code_step h with ⟨hp, -, -, -⟩ | ⟨hphase, halloc, hv, -⟩ | ⟨hphase, hemit, -⟩
    · rw [hp.jumpSite_eq]
      exact hsite
    · obtain ⟨tb, o, htb, ho, hoff⟩ := jumpSite_eq_some.mp hsite
      have hlt := get_eq_some_lt htb
      rw [hv]
      refine jumpSite_eq_some.mpr ⟨tb, o, ?_, ho, hoff⟩
      exact (get_alloc halloc src).trans ((if_neg (Nat.ne_of_lt hlt)).trans htb)
    · obtain ⟨tb, htb, hnone⟩ := hi.emitting t _ _ _ hphase
      have hem := emitTb_spec hi.layout htb hnone hemit
      obtain ⟨tb', o, htb', ho, hoff⟩ := jumpSite_eq_some.mp hsite
      refine jumpSite_eq_some.mpr ⟨tb', o, ?_, ho, hoff⟩
      rw [hem.others src]
      · exact htb'
      · rintro rfl
        rw [htb] at htb'
        injection htb' with htb'
        rw [← htb', hnone] at ho
        cases ho
  refine ⟨?_, ?_, ?_⟩
  · rcases code_step h with ⟨hp, hsize, hoff, -⟩ | ⟨hphase, halloc, hv, -⟩ | ⟨hphase, hemit, -⟩
    · exact hi.layout.of_same hp hsize hoff
    · have hl := hi.layout.alloc halloc
      change Layout v.shared
      rw [hv]
      exact hl
    · obtain ⟨tb, htb, hnone⟩ := hi.emitting t _ _ _ hphase
      exact (emitTb_spec hi.layout htb hnone hemit).layout
  · intro u pc flags i hu
    by_cases hut : u = t
    · subst hut
      rw [update_phase_self] at hu
      rcases code_step h with ⟨-, -, -, hne⟩ | ⟨hphase, halloc, hv, hphase'⟩ | ⟨-, -, hphase'⟩
      · exact absurd hu (hne pc flags i)
      · rw [hu] at hphase'
        injection hphase' with h1 h2 h3
        subst h1 h2 h3
        obtain ⟨hi', -, -⟩ := alloc_eq_some halloc
        refine ⟨TranslationBlock.new pc flags 0, ?_, fun _ => rfl⟩
        change v.shared.store.get i = _
        rw [hv]
        exact (get_alloc halloc i).trans (if_pos hi')
      · rw [hu] at hphase'
        cases hphase'
    · rw [update_phase_of_ne m v hut] at hu
      obtain ⟨tb, htb, hnone⟩ := hi.emitting u pc flags i hu
      have hown := hlock u (by rw [hu]; rfl)
      rcases code_step h with ⟨hp, -, -, -⟩ | ⟨hphase, -, -, -⟩ | ⟨hphase, -, -⟩
      · obtain ⟨tb', htb', hpl⟩ := hp.symm.get htb
        refine ⟨tb', htb', ?_⟩
        simp only [placement, Prod.mk.injEq] at hpl
        rw [← hpl.2.2.1]
        exact hnone
      · have := hlock t (by rw [show m.phase t = _ from hphase]; rfl)
        rw [hown] at this
        exact absurd (Option.some.inj this) hut
      · have := hlock t (by rw [show m.phase t = _ from hphase]; rfl)
        rw [hown] at this
        exact absurd (Option.some.inj this) hut
  · intro u src slot dst off hu
    by_cases hut : u = t
    · subst hut
      rw [update_phase_self] at hu
      exact hsites src slot off (addLink_step h hu).1
    · rw [update_phase_of_ne m v hut] at hu
      exact hsites src slot off (hi.site u src slot dst off hu)

omit [DecidableEq ι] in
/-- What filling in the block of a translating thread does. -/
theorem CodeInv.emitted {m : Machine ι} (hc : CodeInv m) {t : ι} {pc : BitVec 64}
    {flags : BitVec 32} {i : Nat} (hphase : m.phase t = .genEmit pc flags i) {gen : CodeGen}
    {tr : Translation} {sh sh' : Shared} (hsh : m.shared = sh)
    (h : sh.emitTb gen i tr = some sh') : Emitted m.shared sh' i := by
  subst hsh
  obtain ⟨tb, htb, hnone⟩ := hc.emitting t pc flags i hphase
  exact emitTb_spec hc.layout htb hnone h

/-- The lock and code invariants hold along every run. -/
theorem Run.codeInv {gen : CodeGen} {sh₀ : Shared} {σ : Nat → Machine ι} {N : Nat}
    (hrun : Run gen (Machine.initial sh₀) σ N) (h₀ : Fresh sh₀) {k : Nat} (hk : k ≤ N) :
    CodeInv (σ k) ∧ LockInv (σ k) := by
  induction k with
  | zero =>
    rw [hrun.start]
    refine ⟨⟨h₀.layout, ?_, ?_⟩, ?_⟩
    · intro t pc flags i h
      cases h
    · intro t src slot dst off h
      cases h
    · intro t h
      cases h
  | succ k ih =>
    obtain ⟨hc, hl⟩ := ih (by omega)
    obtain ⟨move, hmove⟩ := hrun.step k (by omega)
    obtain ⟨v, hv, heq⟩ := stepMachine_cases hmove
    rw [heq]
    exact ⟨hc.step hl hv, hl.step hv⟩

end TcgRs.Analysis.MachineInvariant
