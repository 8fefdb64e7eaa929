import TcgRs.Model.Exec.Concurrent

/-!
# What one step of a thread can do

`ThreadStep` lists the steps of a thread with everything they require and everything they
change, and `stepThread_cases` says that the list is complete.  The invariants of the
concurrent machine are proved by cases on it.
-/

set_option autoImplicit false

namespace TcgRs.Analysis.ThreadSteps

open TcgRs.Model TcgRs.Model.X86 TcgRs.Model.Exec

variable {ι : Type}

/-- The steps of thread `t`, by the view before and after. -/
inductive ThreadStep (gen : CodeGen) (t : ι) : View ι → View ι → Prop where
  | callFind {sh lock cache} (pc flags) :
      ThreadStep gen t ⟨sh, lock, cache, .idle⟩ ⟨sh, lock, cache, .findCache pc flags⟩
  | callAdd {sh lock cache} (src slot dst) :
      ThreadStep gen t ⟨sh, lock, cache, .idle⟩ ⟨sh, lock, cache, .addTest src slot dst⟩
  | callInvalidate {sh lock cache} (i) :
      ThreadStep gen t ⟨sh, lock, cache, .idle⟩ ⟨sh, lock, cache, .invMark i⟩
  | cacheHit {sh lock cache pc flags i} (h : cacheHit sh cache pc flags = some (some i)) :
      ThreadStep gen t ⟨sh, lock, cache, .findCache pc flags⟩
        ⟨sh, lock, cache, .found pc flags (some i)⟩
  | cacheMiss {sh lock cache pc flags} :
      ThreadStep gen t ⟨sh, lock, cache, .findCache pc flags⟩
        ⟨sh, lock, cache, .findLookup pc flags⟩
  | lookupHit {sh lock cache pc flags i} (h : sh.store.lookup pc flags = some (some i)) :
      ThreadStep gen t ⟨sh, lock, cache, .findLookup pc flags⟩
        ⟨sh, lock, cache.insert pc i, .found pc flags (some i)⟩
  | lookupMiss {sh lock cache pc flags} :
      ThreadStep gen t ⟨sh, lock, cache, .findLookup pc flags⟩
        ⟨sh, lock, cache, .genCheck pc flags⟩
  | bufferFull {sh lock cache pc flags} :
      ThreadStep gen t ⟨sh, lock, cache, .genCheck pc flags⟩ ⟨sh, lock, cache, .found pc flags none⟩
  | bufferOk {sh lock cache pc flags} :
      ThreadStep gen t ⟨sh, lock, cache, .genCheck pc flags⟩ ⟨sh, lock, cache, .genLock pc flags⟩
  | acquire {sh cache pc flags} :
      ThreadStep gen t ⟨sh, none, cache, .genLock pc flags⟩ ⟨sh, some t, cache, .genLookup pc flags⟩
  | doubleCheckHit {sh lock cache pc flags i} (h : sh.store.lookup pc flags = some (some i)) :
      ThreadStep gen t ⟨sh, lock, cache, .genLookup pc flags⟩
        ⟨sh, none, cache.insert pc i, .found pc flags (some i)⟩
  | doubleCheckMiss {sh lock cache pc flags} (h : sh.store.lookup pc flags = some none) :
      ThreadStep gen t ⟨sh, lock, cache, .genLookup pc flags⟩ ⟨sh, lock, cache, .genAlloc pc flags⟩
  | alloc {sh lock cache pc flags store i} (h : sh.store.alloc pc flags 0 = some (store, i)) :
      ThreadStep gen t ⟨sh, lock, cache, .genAlloc pc flags⟩
        ⟨{ sh with store := store }, lock, cache, .genEmit pc flags i⟩
  | emit {sh sh' lock cache pc flags i tr} (h : sh.emitTb gen i tr = some sh') :
      ThreadStep gen t ⟨sh, lock, cache, .genEmit pc flags i⟩
        ⟨sh', lock, cache, .genInsert pc flags i⟩
  | insert {sh lock cache pc flags i store} (h : sh.store.insert i = some store) :
      ThreadStep gen t ⟨sh, lock, cache, .genInsert pc flags i⟩
        ⟨{ sh with store := store }, lock, cache, .genUnlock pc flags i⟩
  | unlock {sh lock cache pc flags i} :
      ThreadStep gen t ⟨sh, lock, cache, .genUnlock pc flags i⟩
        ⟨sh, none, cache.insert pc i, .found pc flags (some i)⟩
  | returnFind {sh lock cache pc flags r} :
      ThreadStep gen t ⟨sh, lock, cache, .found pc flags r⟩ ⟨sh, lock, cache, .idle⟩
  | addRefused {sh lock cache src slot dst} :
      ThreadStep gen t ⟨sh, lock, cache, .addTest src slot dst⟩ ⟨sh, lock, cache, .idle⟩
  | addPass {sh lock cache src slot dst srcTb jmpOff dstTb} (hsrc : sh.store.get src = some srcTb)
      (hoff : srcTb.jmpInsnOffset slot = some jmpOff) (hdst : sh.store.get dst = some dstTb)
      (hvalid : dstTb.invalid = false) :
      ThreadStep gen t ⟨sh, lock, cache, .addTest src slot dst⟩
        ⟨sh, lock, cache, .addLink src slot dst jmpOff.toNat⟩
  | linkOld {sh lock cache src slot dst jmpOff} :
      ThreadStep gen t ⟨sh, lock, cache, .addLink src slot dst jmpOff⟩ ⟨sh, lock, cache, .idle⟩
  | linkNew {sh lock cache src slot dst jmpOff srcTb dstTb buf}
      (hsrc : sh.store.get src = some srcTb) (hdst : sh.store.get dst = some dstTb)
      (hpatch : patchJump sh.buf jmpOff dstTb.hostOffset = some buf) :
      ThreadStep gen t ⟨sh, lock, cache, .addLink src slot dst jmpOff⟩
        ⟨⟨sh.store.setJmpDest src slot (some dst), buf⟩, lock, cache, .addPush src slot dst⟩
  | push {sh lock cache src slot dst dstTb} (hdst : sh.store.get dst = some dstTb) :
      ThreadStep gen t ⟨sh, lock, cache, .addPush src slot dst⟩
        ⟨{ sh with store := sh.store.pushIncoming dst src slot }, lock, cache, .idle⟩
  | mark {sh lock cache i tb} (htb : sh.store.get i = some tb) :
      ThreadStep gen t ⟨sh, lock, cache, .invMark i⟩
        ⟨{ sh with store := sh.store.markInvalid i }, lock, cache, .invTake i⟩
  | take {sh lock cache i tb} (htb : sh.store.get i = some tb) :
      ThreadStep gen t ⟨sh, lock, cache, .invTake i⟩
        ⟨{ sh with store := sh.store.clearJmpList i }, lock, cache, .invReset i tb.jmp.jmpList⟩
  | reset {sh lock cache i edge edges src buf} (hsrc : sh.store.get edge.1 = some src)
      (hbuf : Shared.resetJump src sh.buf edge.2 = some buf) :
      ThreadStep gen t ⟨sh, lock, cache, .invReset i (edge :: edges)⟩
        ⟨{ sh with buf := buf }, lock, cache, .invClear i edge edges⟩
  | clear {sh lock cache i edge edges} :
      ThreadStep gen t ⟨sh, lock, cache, .invClear i edge edges⟩
        ⟨{ sh with store := sh.store.setJmpDest edge.1 edge.2 none }, lock, cache,
          .invReset i edges⟩
  | takeOut {sh lock cache i tb} (htb : sh.store.get i = some tb) :
      ThreadStep gen t ⟨sh, lock, cache, .invReset i []⟩
        ⟨{ sh with store := sh.store.clearJmpDests i }, lock, cache,
          .invRetain i (TbStore.outgoing tb)⟩
  | retain {sh lock cache i p out} :
      ThreadStep gen t ⟨sh, lock, cache, .invRetain i (p :: out)⟩
        ⟨{ sh with store := sh.store.retainIncoming i p.1 p.2 }, lock, cache, .invRetain i out⟩
  | remove {sh lock cache i store} (h : sh.store.hashRemove i = some store) :
      ThreadStep gen t ⟨sh, lock, cache, .invRetain i []⟩
        ⟨{ sh with store := store }, lock, cache, .idle⟩

theorem stepFind_cases [DecidableEq ι] {gen : CodeGen} {t : ι} {c : Choice} {v v' : View ι}
    (h : stepFind gen t c v = some v') : ThreadStep gen t v v' := by
  obtain ⟨sh, lock, cache, phase⟩ := v
  cases phase with
  | findCache pc flags =>
    cases c with
    | proceed =>
      simp only [stepFind] at h
      obtain ⟨r, hr, h⟩ := Option.bind_eq_some_iff.mp h
      cases r with
      | none =>
        simp only [Option.pure_def, Option.some.injEq] at h
        exact h ▸ ThreadStep.cacheMiss
      | some i =>
        simp only [Option.pure_def, Option.some.injEq] at h
        exact h ▸ ThreadStep.cacheHit hr
    | _ => cases h
  | findLookup pc flags =>
    cases c with
    | proceed =>
      simp only [stepFind] at h
      obtain ⟨r, hr, h⟩ := Option.bind_eq_some_iff.mp h
      cases r with
      | none =>
        simp only [Option.pure_def, Option.some.injEq] at h
        exact h ▸ ThreadStep.lookupMiss
      | some i =>
        simp only [Option.pure_def, Option.some.injEq] at h
        exact h ▸ ThreadStep.lookupHit hr
    | _ => cases h
  | genCheck pc flags =>
    cases c with
    | proceed =>
      simp only [stepFind] at h
      split at h
      · simp only [Option.some.injEq] at h
        exact h ▸ ThreadStep.bufferFull
      · simp only [Option.some.injEq] at h
        exact h ▸ ThreadStep.bufferOk
    | _ => cases h
  | genLock pc flags =>
    cases c with
    | proceed =>
      simp only [stepFind] at h
      split at h
      · next hlock =>
        simp only [Option.some.injEq] at h
        subst hlock
        exact h ▸ ThreadStep.acquire
      · cases h
    | _ => cases h
  | genLookup pc flags =>
    cases c with
    | proceed =>
      simp only [stepFind] at h
      obtain ⟨r, hr, h⟩ := Option.bind_eq_some_iff.mp h
      cases r with
      | none =>
        simp only [Option.pure_def, Option.some.injEq] at h
        exact h ▸ ThreadStep.doubleCheckMiss hr
      | some i =>
        simp only [Option.pure_def, Option.some.injEq] at h
        exact h ▸ ThreadStep.doubleCheckHit hr
    | _ => cases h
  | genAlloc pc flags =>
    cases c with
    | proceed =>
      simp only [stepFind] at h
      obtain ⟨⟨store, i⟩, hr, h⟩ := Option.bind_eq_some_iff.mp h
      simp only [Option.pure_def, Option.some.injEq] at h
      exact h ▸ ThreadStep.alloc hr
    | _ => cases h
  | genEmit pc flags i =>
    cases c with
    | translation tr =>
      simp only [stepFind] at h
      obtain ⟨sh', hr, h⟩ := Option.bind_eq_some_iff.mp h
      simp only [Option.pure_def, Option.some.injEq] at h
      exact h ▸ ThreadStep.emit hr
    | _ => cases h
  | genInsert pc flags i =>
    cases c with
    | proceed =>
      simp only [stepFind] at h
      obtain ⟨store, hr, h⟩ := Option.bind_eq_some_iff.mp h
      simp only [Option.pure_def, Option.some.injEq] at h
      exact h ▸ ThreadStep.insert hr
    | _ => cases h
  | genUnlock pc flags i =>
    cases c with
    | proceed =>
      simp only [stepFind, Option.some.injEq] at h
      exact h ▸ ThreadStep.unlock
    | _ => cases h
  | found pc flags r =>
    cases c with
    | proceed =>
      simp only [stepFind, Option.some.injEq] at h
      exact h ▸ ThreadStep.returnFind
    | _ => cases h
  | _ => cases h

theorem stepAdd_cases {gen : CodeGen} {t : ι} {v v' : View ι} (h : stepAdd v = some v') :
    ThreadStep gen t v v' := by
  obtain ⟨sh, lock, cache, phase⟩ := v
  cases phase with
  | addTest src slot dst =>
    simp only [stepAdd] at h
    obtain ⟨srcTb, hsrc, h⟩ := Option.bind_eq_some_iff.mp h
    cases hoff : srcTb.jmpInsnOffset slot with
    | none =>
      simp only [hoff, Option.pure_def, Option.some.injEq] at h
      exact h ▸ ThreadStep.addRefused
    | some jmpOff =>
      simp only [hoff] at h
      obtain ⟨dstTb, hdst, h⟩ := Option.bind_eq_some_iff.mp h
      cases hvalid : dstTb.invalid with
      | true =>
        simp only [hvalid, if_true, Option.pure_def, Option.some.injEq] at h
        exact h ▸ ThreadStep.addRefused
      | false =>
        simp only [hvalid, Bool.false_eq_true, if_false, Option.pure_def, Option.some.injEq] at h
        exact h ▸ ThreadStep.addPass hsrc hoff hdst hvalid
  | addLink src slot dst jmpOff =>
    simp only [stepAdd, Shared.linkSource] at h
    obtain ⟨⟨shared, linked⟩, hlink, h⟩ := Option.bind_eq_some_iff.mp h
    obtain ⟨srcTb, hsrc, hlink⟩ := Option.bind_eq_some_iff.mp hlink
    simp only [Option.pure_def, Option.some.injEq] at h
    split at hlink
    · simp only [Option.pure_def, Option.some.injEq, Prod.mk.injEq] at hlink
      obtain ⟨rfl, rfl⟩ := hlink
      exact h ▸ ThreadStep.linkOld
    · obtain ⟨dstTb, hdst, hlink⟩ := Option.bind_eq_some_iff.mp hlink
      obtain ⟨buf, hpatch, hlink⟩ := Option.bind_eq_some_iff.mp hlink
      simp only [Option.pure_def, Option.some.injEq, Prod.mk.injEq] at hlink
      obtain ⟨rfl, rfl⟩ := hlink
      exact h ▸ ThreadStep.linkNew hsrc hdst hpatch
  | addPush src slot dst =>
    simp only [stepAdd] at h
    obtain ⟨dstTb, hdst, h⟩ := Option.bind_eq_some_iff.mp h
    simp only [Option.pure_def, Option.some.injEq] at h
    exact h ▸ ThreadStep.push hdst
  | _ => cases h

theorem stepInvalidate_cases {gen : CodeGen} {t : ι} {v v' : View ι}
    (h : stepInvalidate v = some v') : ThreadStep gen t v v' := by
  obtain ⟨sh, lock, cache, phase⟩ := v
  cases phase with
  | invMark i =>
    simp only [stepInvalidate] at h
    obtain ⟨tb, htb, h⟩ := Option.bind_eq_some_iff.mp h
    simp only [Option.pure_def, Option.some.injEq] at h
    exact h ▸ ThreadStep.mark htb
  | invTake i =>
    simp only [stepInvalidate] at h
    obtain ⟨tb, htb, h⟩ := Option.bind_eq_some_iff.mp h
    simp only [Option.pure_def, Option.some.injEq] at h
    exact h ▸ ThreadStep.take htb
  | invReset i edges =>
    cases edges with
    | nil =>
      simp only [stepInvalidate] at h
      obtain ⟨tb, htb, h⟩ := Option.bind_eq_some_iff.mp h
      simp only [Option.pure_def, Option.some.injEq] at h
      exact h ▸ ThreadStep.takeOut htb
    | cons edge edges =>
      simp only [stepInvalidate] at h
      obtain ⟨src, hsrc, h⟩ := Option.bind_eq_some_iff.mp h
      obtain ⟨buf, hbuf, h⟩ := Option.bind_eq_some_iff.mp h
      simp only [Option.pure_def, Option.some.injEq] at h
      exact h ▸ ThreadStep.reset hsrc hbuf
  | invClear i edge edges =>
    simp only [stepInvalidate] at h
    obtain ⟨tb, -, h⟩ := Option.bind_eq_some_iff.mp h
    simp only [Option.pure_def, Option.some.injEq] at h
    exact h ▸ ThreadStep.clear
  | invRetain i out =>
    cases out with
    | nil =>
      simp only [stepInvalidate] at h
      obtain ⟨store, hstore, h⟩ := Option.bind_eq_some_iff.mp h
      simp only [Option.pure_def, Option.some.injEq] at h
      exact h ▸ ThreadStep.remove hstore
    | cons p out =>
      simp only [stepInvalidate] at h
      obtain ⟨tb, -, h⟩ := Option.bind_eq_some_iff.mp h
      simp only [Option.pure_def, Option.some.injEq] at h
      exact h ▸ ThreadStep.retain
  | _ => cases h

/-- Every step of a thread is in the list. -/
theorem stepThread_cases [DecidableEq ι] {gen : CodeGen} {t : ι} {c : Choice} {v v' : View ι}
    (h : stepThread gen t c v = some v') : ThreadStep gen t v v' := by
  have hcall : v.phase ≠ .idle →
      (stepFind gen t c v).or ((stepAdd v).or (stepInvalidate v)) = some v' →
      ThreadStep gen t v v' := by
    intro _ h
    rcases Option.or_eq_some_iff.mp h with h | ⟨-, h⟩
    · exact stepFind_cases h
    · rcases Option.or_eq_some_iff.mp h with h | ⟨-, h⟩
      · exact stepAdd_cases h
      · exact stepInvalidate_cases h
  obtain ⟨sh, lock, cache, phase⟩ := v
  cases phase with
  | idle =>
    cases c with
    | find pc flags =>
      simp only [stepThread, Option.some.injEq] at h
      exact h ▸ ThreadStep.callFind pc flags
    | addJump src slot dst =>
      simp only [stepThread, Option.some.injEq] at h
      exact h ▸ ThreadStep.callAdd src slot dst
    | invalidate i =>
      simp only [stepThread, Option.some.injEq] at h
      exact h ▸ ThreadStep.callInvalidate i
    | translation tr => cases h
    | proceed => cases h
  | _ => exact hcall (by simp) h

end TcgRs.Analysis.ThreadSteps
