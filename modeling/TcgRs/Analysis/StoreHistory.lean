import TcgRs.Analysis.HashTable

/-!
# The hash table over sequences of store operations

A sequence of `alloc`, `insert`, `invalidate` and `lookup` calls is a list of operations, and
what the table must hold afterwards is read off that list alone.  Every sequence that names
existing blocks, inserts no block twice and allocates no more than the store holds runs to
its end without a failed assertion, and leaves the chains and the answers of `lookup` as the
history says.
-/

set_option autoImplicit false

namespace TcgRs.Analysis.StoreHistory

open TcgRs.Model TcgRs.Model.Exec TcgRs.Library TranslationBlock HashTable

/-- One call on the store. -/
inductive StoreOp where
  | alloc (pc : BitVec 64) (flags cflags : BitVec 32)
  | insert (i : Nat)
  | invalidate (i : Nat)
  | lookup (pc : BitVec 64) (flags : BitVec 32)
  deriving DecidableEq

/-- Run one call; `none` is a panic or a walk that does not end. -/
def stepOp (sh : Shared) : StoreOp → Option Shared
  | .alloc pc flags cflags => (sh.store.alloc pc flags cflags).map (fun r => { sh with store := r.1 })
  | .insert i => (sh.store.insert i).map (fun s => { sh with store := s })
  | .invalidate i => sh.invalidate i
  | .lookup pc flags => (sh.store.lookup pc flags).map (fun _ => sh)

/-- The calls one after another, on an empty store. -/
def runOps (ops : List StoreOp) (buf : CodeBuffer) : Option Shared :=
  ops.foldlM stepOp ⟨{}, buf⟩

/-! ## Reading the history -/

/-- The pc and flags of each allocated block, by its index. -/
def allocated (ops : List StoreOp) : List (BitVec 64 × BitVec 32) :=
  ops.filterMap (fun | .alloc pc flags _ => some (pc, flags) | _ => none)

/-- The inserted blocks, most recent first. -/
def insertions (ops : List StoreOp) : List Nat :=
  (ops.filterMap (fun | .insert i => some i | _ => none)).reverse

/-- The block was inserted, and not invalidated after that. -/
def InsertedAndNotInvalidatedSince (ops : List StoreOp) (i : Nat) : Prop :=
  ∃ before after, ops = before ++ StoreOp.insert i :: after ∧ StoreOp.invalidate i ∉ after

/-- The most recently inserted block with this pc and these flags that was never invalidated. -/
def mostRecent (ops : List StoreOp) (pc : BitVec 64) (flags : BitVec 32) : Option Nat :=
  (insertions ops).find? (fun i => decide ((allocated ops)[i]? = some (pc, flags)) &&
    decide (StoreOp.invalidate i ∉ ops))

/-- The call names blocks that exist, inserts a block for the first time, or allocates one
while the store is not full. -/
def Allowed (ops : List StoreOp) : StoreOp → Prop
  | .alloc _ _ _ => (allocated ops).length < TbStore.maxTbs
  | .insert i => i < (allocated ops).length ∧ StoreOp.insert i ∉ ops
  | .invalidate i => i < (allocated ops).length
  | .lookup _ _ => True

/-- Every call of the sequence is allowed after those before it. -/
inductive Admissible : List StoreOp → Prop where
  | nil : Admissible []
  | snoc {ops : List StoreOp} {op : StoreOp} (h : Admissible ops) (ho : Allowed ops op) :
      Admissible (ops ++ [op])

/-- The chains of the table after the history `ops`, and what `lookup` finds through them. -/
structure HashTableSpec (ops : List StoreOp) (s : TbStore)
    (chains : Fin tbHashSize → List Nat) : Prop where
  chained : ∀ b, Linked (hashNextOf s) (s.hash b) (chains b)
  acyclic : ∀ b, (chains b).Nodup
  disjoint : ∀ b b', b ≠ b' → (chains b).Disjoint (chains b')
  bucket : ∀ b, ∀ i ∈ chains b, ∃ tb, s.get i = some tb ∧ hash tb.pc tb.flags = b
  members : ∀ i, (∃ b, i ∈ chains b) ↔ InsertedAndNotInvalidatedSince ops i
  lookup : ∀ pc flags fuel, s.tbs.length ≤ fuel →
    s.lookupFrom pc flags fuel (s.hash (hash pc flags)) = some (mostRecent ops pc flags)

/-! ## The blocks in the table, as a fold over the history -/

/-- The blocks in the table after one more call. -/
def liveStep (live : List Nat) : StoreOp → List Nat
  | .insert i => i :: live
  | .invalidate i => live.erase i
  | _ => live

def live (ops : List StoreOp) : List Nat := ops.foldl liveStep []

theorem live_snoc (ops : List StoreOp) (op : StoreOp) :
    live (ops ++ [op]) = liveStep (live ops) op := by
  simp [live]

theorem live_sublist_insertions (ops : List StoreOp) : (live ops).Sublist (insertions ops) := by
  induction ops using List.reverseRecOn with
  | nil => exact List.Sublist.refl _
  | append_singleton ops op ih =>
    rw [live_snoc]
    cases op with
    | insert i => simpa [insertions, liveStep] using ih
    | invalidate i => simpa [insertions, liveStep] using (List.erase_sublist).trans ih
    | alloc pc flags cflags => simpa [insertions, liveStep] using ih
    | lookup pc flags => simpa [insertions, liveStep] using ih

theorem mem_insertions {ops : List StoreOp} {i : Nat} :
    i ∈ insertions ops ↔ StoreOp.insert i ∈ ops := by
  simp only [insertions, List.mem_reverse, List.mem_filterMap]
  constructor
  · rintro ⟨op, hop, hi⟩
    cases op with
    | insert j => simp only [Option.some.injEq] at hi; exact hi ▸ hop
    | invalidate j => cases hi
    | alloc pc flags cflags => cases hi
    | lookup pc flags => cases hi
  · exact fun h => ⟨_, h, rfl⟩

/-- Each block is inserted at most once in an admissible history. -/
theorem Admissible.insertions_nodup {ops : List StoreOp} (h : Admissible ops) :
    (insertions ops).Nodup := by
  induction h with
  | nil => exact List.nodup_nil
  | @snoc ops op h ho ih =>
    cases op with
    | insert i =>
      have hi : i ∉ insertions ops := fun hm => ho.2 (mem_insertions.mp hm)
      simpa [insertions] using And.intro (by simpa [insertions] using hi) (by simpa [insertions] using ih)
    | invalidate i => simpa [insertions] using ih
    | alloc pc flags cflags => simpa [insertions] using ih
    | lookup pc flags => simpa [insertions] using ih

/-- An operation that neither inserts nor invalidates `i` does not change its status. -/
theorem since_snoc_iff {ops : List StoreOp} {op : StoreOp} {i : Nat} (hins : op ≠ .insert i)
    (hinv : op ≠ .invalidate i) :
    InsertedAndNotInvalidatedSince (ops ++ [op]) i ↔ InsertedAndNotInvalidatedSince ops i := by
  constructor
  · rintro ⟨before, after, heq, hafter⟩
    rcases List.eq_nil_or_concat after with rfl | ⟨after', last, rfl⟩
    · obtain ⟨-, hlast⟩ := List.append_inj' heq rfl
      exact absurd (List.singleton_inj.mp hlast) hins
    · rw [List.concat_eq_append, ← List.cons_append, ← List.append_assoc] at heq
      obtain ⟨hops, -⟩ := List.append_inj' heq rfl
      refine ⟨before, after', hops, fun hm => hafter ?_⟩
      rw [List.concat_eq_append]
      exact List.mem_append_left _ hm
  · rintro ⟨before, after, rfl, hafter⟩
    refine ⟨before, after ++ [op], by simp, ?_⟩
    simp only [List.mem_append, List.mem_singleton, not_or]
    exact ⟨hafter, fun h => hinv h.symm⟩

theorem since_insert (ops : List StoreOp) (i : Nat) :
    InsertedAndNotInvalidatedSince (ops ++ [.insert i]) i :=
  ⟨ops, [], rfl, by simp⟩

theorem not_since_invalidate {ops : List StoreOp} {i : Nat} :
    ¬ InsertedAndNotInvalidatedSince (ops ++ [.invalidate i]) i := by
  rintro ⟨before, after, heq, hafter⟩
  rcases List.eq_nil_or_concat after with rfl | ⟨after', last, rfl⟩
  · obtain ⟨-, hlast⟩ := List.append_inj' heq rfl
    simp at hlast
  · rw [List.concat_eq_append, ← List.cons_append, ← List.append_assoc] at heq
    obtain ⟨-, hlast⟩ := List.append_inj' heq rfl
    apply hafter
    rw [List.concat_eq_append, ← hlast]
    exact List.mem_append_right _ List.mem_cons_self

/-- The fold holds exactly the blocks inserted and not invalidated since. -/
theorem Admissible.mem_live_iff {ops : List StoreOp} (h : Admissible ops) (i : Nat) :
    i ∈ live ops ↔ InsertedAndNotInvalidatedSince ops i := by
  induction h with
  | nil =>
    constructor
    · intro hm
      exact absurd hm List.not_mem_nil
    · rintro ⟨before, after, heq, -⟩
      exact absurd heq.symm (by simp)
  | @snoc ops op h ho ih =>
    rw [live_snoc]
    by_cases hins : op = .insert i
    · subst hins
      simp only [liveStep, List.mem_cons_self, true_iff]
      exact since_insert ops i
    · by_cases hinv : op = .invalidate i
      · subst hinv
        have hnd := h.insertions_nodup.sublist (live_sublist_insertions ops)
        simp only [liveStep, hnd.mem_erase_iff, ne_eq, not_true_eq_false, false_and, false_iff]
        exact not_since_invalidate
      · rw [since_snoc_iff hins hinv, ← ih]
        cases op with
        | insert j =>
          have hne : i ≠ j := fun hij => hins (by rw [hij])
          simp [liveStep, hne]
        | invalidate j =>
          have hne : i ≠ j := fun hij => hinv (by rw [hij])
          simp only [liveStep]
          exact List.mem_erase_of_ne hne
        | alloc pc flags cflags => rfl
        | lookup pc flags => rfl

/-- The first hit in a sublist that keeps every hit is the first hit. -/
theorem find?_of_sublist {p : Nat → Bool} {l m : List Nat} (hsub : l.Sublist m) (hnd : m.Nodup)
    (hkeep : ∀ i ∈ m, p i = true → i ∈ l) : l.find? p = m.find? p := by
  induction hsub with
  | slnil => rfl
  | @cons l m a hsub ih =>
    obtain ⟨ha, hnd⟩ := List.nodup_cons.mp hnd
    have hpa : p a = false := by
      by_contra hpa
      rw [Bool.not_eq_false] at hpa
      exact ha (hsub.subset (hkeep a List.mem_cons_self hpa))
    rw [List.find?_cons, hpa]
    exact ih hnd (fun i hi => hkeep i (List.mem_cons_of_mem a hi))
  | @cons_cons l m a hsub ih =>
    obtain ⟨ha, hnd⟩ := List.nodup_cons.mp hnd
    rw [List.find?_cons, List.find?_cons]
    cases p a with
    | true => rfl
    | false =>
      refine ih hnd (fun i hi hpi => ?_)
      rcases List.mem_cons.mp (hkeep i (List.mem_cons_of_mem a hi) hpi) with rfl | h
      · exact absurd hi ha
      · exact h

/-! ## The store reflects the history -/

/-- The store holds what the history says, and nothing is chained. -/
structure Reflects (ops : List StoreOp) (s : TbStore) : Prop where
  table : TableInv s (live ops)
  length_eq : s.tbs.length = (allocated ops).length
  blocks : ∀ i tb, s.get i = some tb → (allocated ops)[i]? = some (tb.pc, tb.flags)
  invalid : ∀ i tb, s.get i = some tb → (tb.invalid = true ↔ StoreOp.invalidate i ∈ ops)
  unchained : ∀ i tb, s.get i = some tb →
    tb.jmp.jmpList = [] ∧ ∀ n, tb.jmp.jmpDest n = none

theorem Admissible.invalidate_lt {ops : List StoreOp} (h : Admissible ops) {i : Nat}
    (hm : StoreOp.invalidate i ∈ ops) : i < (allocated ops).length := by
  induction h with
  | nil => exact absurd hm List.not_mem_nil
  | @snoc ops op h ho ih =>
    have hle : (allocated ops).length ≤ (allocated (ops ++ [op])).length := by simp [allocated]
    rcases List.mem_append.mp hm with hm | hm
    · exact lt_of_lt_of_le (ih hm) hle
    · rw [List.mem_singleton] at hm
      subst hm
      exact lt_of_lt_of_le ho hle

theorem Reflects.alloc {ops : List StoreOp} {s : TbStore} {pc : BitVec 64}
    {flags cflags : BitVec 32} (hops : Admissible ops) (hr : Reflects ops s)
    (ho : Allowed ops (.alloc pc flags cflags)) :
    ∃ r, s.alloc pc flags cflags = some r ∧ Reflects (ops ++ [.alloc pc flags cflags]) r.1 := by
  have hlt : s.tbs.length < TbStore.maxTbs := hr.length_eq ▸ ho
  have hsome : s.alloc pc flags cflags = some
      ({ s with tbs := s.tbs ++ [TranslationBlock.new pc flags cflags] }, s.tbs.length) := by
    simp only [TbStore.alloc, if_pos hlt]
  have hall : allocated (ops ++ [.alloc pc flags cflags]) = allocated ops ++ [(pc, flags)] := by
    simp [allocated]
  have hlen := hr.length_eq
  have hget := get_alloc hsome
  refine ⟨_, hsome, ?_, ?_, ?_, ?_, ?_⟩
  · rw [live_snoc]
    exact hr.table.alloc hsome
  · rw [hall]
    simp [hlen]
  · intro i tb htb
    rw [hget] at htb
    rw [hall]
    split at htb
    · next hi =>
      injection htb with htb
      subst htb
      rw [hi, hlen, List.getElem?_append_right le_rfl]
      simp [TranslationBlock.new]
    · have := get_eq_some_lt htb
      rw [List.getElem?_append_left (by omega)]
      exact hr.blocks i tb htb
  · intro i tb htb
    rw [hget] at htb
    split at htb
    · next hi =>
      injection htb with htb
      subst htb
      have hnot : StoreOp.invalidate i ∉ ops := by
        intro hm
        have := hops.invalidate_lt hm
        omega
      simp [TranslationBlock.new, hnot]
    · simpa using hr.invalid i tb htb
  · intro i tb htb
    rw [hget] at htb
    split at htb
    · injection htb with htb
      subst htb
      exact ⟨rfl, fun _ => rfl⟩
    · exact hr.unchained i tb htb

theorem Reflects.insert {ops : List StoreOp} {s : TbStore} {i : Nat} (hr : Reflects ops s)
    (ho : Allowed ops (.insert i)) :
    ∃ s', s.insert i = some s' ∧ Reflects (ops ++ [.insert i]) s' := by
  obtain ⟨hlt, hnew⟩ := ho
  obtain ⟨tb, htb⟩ := get_of_lt (s := s) (i := i) (by rw [hr.length_eq]; exact hlt)
  have hsome : ∃ s', s.insert i = some s' := by
    simp only [TbStore.insert, htb, Option.bind_eq_bind, Option.bind_some, Option.pure_def]
    exact ⟨_, rfl⟩
  obtain ⟨s', hs'⟩ := hsome
  have hcore := insert_sameCore hs'
  have hni : i ∉ live ops := fun hm =>
    hnew (mem_insertions.mp ((live_sublist_insertions ops).subset hm))
  have hall : allocated (ops ++ [.insert i]) = allocated ops := by simp [allocated]
  refine ⟨s', hs', ?_, ?_, ?_, ?_, ?_⟩
  · rw [live_snoc]
    exact hr.table.insert hni hs'
  · rw [hall, hcore.length_eq, hr.length_eq]
  · intro j tb' htb'
    obtain ⟨tb, htb, heq⟩ := hcore.get_eq htb'
    rw [hall, heq]
    exact hr.blocks j tb htb
  · intro j tb' htb'
    obtain ⟨tb, htb, heq⟩ := hcore.get_eq htb'
    rw [heq]
    simpa using hr.invalid j tb htb
  · intro j tb' htb'
    obtain ⟨tb, htb, heq⟩ := hcore.get_eq htb'
    rw [heq]
    exact hr.unchained j tb htb

/-- The store of `invalidate i` just before step 3, when `i` has no edges. -/
def unlinked (s : TbStore) (i : Nat) : TbStore :=
  ((s.markInvalid i).clearJmpList i).clearJmpDests i

theorem unlinked_sameTable (s : TbStore) (i : Nat) : SameTable s (unlinked s i) := by
  have h₁ : SameTable s (s.markInvalid i) := sameTable_modify s i _ (fun _ => rfl)
  have h₂ : SameTable (s.markInvalid i) ((s.markInvalid i).clearJmpList i) :=
    sameTable_modify _ i _ (fun _ => rfl)
  exact (h₁.trans h₂).trans (sameTable_modify _ i _ (fun _ => rfl))

theorem get_unlinked (s : TbStore) (i j : Nat) :
    (unlinked s i).get j = (s.get j).map (fun tb => if i = j then
      { tb with invalid := true, jmp := ⟨fun _ => none, []⟩ } else tb) := by
  simp only [unlinked, TbStore.markInvalid, TbStore.clearJmpList, TbStore.clearJmpDests,
    get_modify, Option.map_map]
  congr 1
  funext tb
  by_cases hij : i = j
  · simp [Function.comp, hij]
  · simp [Function.comp, hij]

/-- Without chained jumps, `invalidate` marks the block and removes it from the table. -/
theorem invalidate_of_unchained {sh : Shared} {i : Nat} {tb : TranslationBlock}
    (htb : sh.store.get i = some tb) (hlist : tb.jmp.jmpList = [])
    (hdest : ∀ n, tb.jmp.jmpDest n = none) :
    sh.invalidate i = ((unlinked sh.store i).hashRemove i).map (fun s => { sh with store := s }) := by
  have hmark : (sh.store.markInvalid i).get i = some { tb with invalid := true } := by
    simp [TbStore.markInvalid, htb]
  have hclear : ((sh.store.markInvalid i).clearJmpList i).get i =
      some { tb with invalid := true, jmp := { tb.jmp with jmpList := [] } } := by
    simp [TbStore.clearJmpList, hmark]
  have hout : TbStore.outgoing
      { tb with invalid := true, jmp := { tb.jmp with jmpList := [] } } = [] := by
    simp [TbStore.outgoing, hdest]
  simp only [Shared.invalidate, htb, hmark, hlist, List.foldlM_nil, Option.pure_def,
    Option.bind_eq_bind, Option.bind_some, hclear, hout]
  exact (Option.map_eq_bind).symm

theorem Reflects.invalidate {ops : List StoreOp} {sh : Shared} {i : Nat}
    (hr : Reflects ops sh.store) (ho : Allowed ops (.invalidate i)) :
    ∃ sh', sh.invalidate i = some sh' ∧ Reflects (ops ++ [.invalidate i]) sh'.store := by
  have hlt : i < sh.store.tbs.length := by rw [hr.length_eq]; exact ho
  obtain ⟨tb, htb⟩ := get_of_lt hlt
  obtain ⟨hlist, hdest⟩ := hr.unchained i tb htb
  have hsame := unlinked_sameTable sh.store i
  have htable : TableInv (unlinked sh.store i) (live ops) := hr.table.of_same hsame
  obtain ⟨s', hs', hinv⟩ := htable.hashRemove (by rw [hsame.length_eq]; exact hlt)
  have hcore := hashRemove_sameCore hs'
  -- every block afterwards, by its form before the call
  have hback : ∀ j tb', s'.get j = some tb' → ∃ t, sh.store.get j = some t ∧
      tb'.pc = t.pc ∧ tb'.flags = t.flags ∧ tb'.invalid = (decide (i = j) || t.invalid) ∧
      tb'.jmp.jmpList = [] ∧ ∀ n, tb'.jmp.jmpDest n = none := by
    intro j tb' htb'
    obtain ⟨t', ht', heq⟩ := hcore.get_eq htb'
    rw [get_unlinked, Option.map_eq_some_iff] at ht'
    obtain ⟨t, ht, rfl⟩ := ht'
    refine ⟨t, ht, ?_⟩
    rw [heq]
    by_cases hij : i = j
    · simp [hij]
    · simpa [hij] using hr.unchained j t ht
  have hall : allocated (ops ++ [.invalidate i]) = allocated ops := by simp [allocated]
  refine ⟨{ sh with store := s' }, ?_, ?_, ?_, ?_, ?_, ?_⟩
  · rw [invalidate_of_unchained htb hlist hdest, hs']
    rfl
  · rw [live_snoc]
    exact hinv
  · rw [hall, hcore.length_eq, hsame.length_eq, hr.length_eq]
  · intro j tb' htb'
    obtain ⟨t, ht, hpc, hflags, -⟩ := hback j tb' htb'
    rw [hall, hpc, hflags]
    exact hr.blocks j t ht
  · intro j tb' htb'
    obtain ⟨t, ht, -, -, hinvalid, -⟩ := hback j tb' htb'
    have hold := hr.invalid j t ht
    rw [hinvalid]
    by_cases hij : i = j
    · simp [hij]
    · have hji : ¬ j = i := fun h => hij h.symm
      simpa [hij, hji] using hold
  · intro j tb' htb'
    obtain ⟨t, -, -, -, -, hjmp⟩ := hback j tb' htb'
    exact hjmp

/-- One allowed call does not panic and keeps the store in step with the history. -/
theorem Reflects.step {ops : List StoreOp} {sh : Shared} {op : StoreOp} (hops : Admissible ops)
    (hr : Reflects ops sh.store) (ho : Allowed ops op) :
    ∃ sh', stepOp sh op = some sh' ∧ Reflects (ops ++ [op]) sh'.store := by
  cases op with
  | alloc pc flags cflags =>
    obtain ⟨r, hr', href⟩ := hr.alloc hops ho
    exact ⟨_, by rw [stepOp, hr', Option.map_some], href⟩
  | insert i =>
    obtain ⟨s', hs', href⟩ := hr.insert ho
    exact ⟨_, by rw [stepOp, hs', Option.map_some], href⟩
  | invalidate i => exact hr.invalidate ho
  | lookup pc flags =>
    refine ⟨sh, ?_, ?_⟩
    · rw [stepOp, hr.table.lookup, Option.map_some]
    · refine ⟨by rw [live_snoc]; exact hr.table, ?_, ?_, ?_, hr.unchained⟩
      · simpa [allocated] using hr.length_eq
      · simpa [allocated] using hr.blocks
      · simpa using hr.invalid

theorem Admissible.run {ops : List StoreOp} (h : Admissible ops) (buf : CodeBuffer) :
    ∃ sh, runOps ops buf = some sh ∧ Reflects ops sh.store := by
  induction h with
  | nil =>
    refine ⟨⟨{}, buf⟩, rfl, ?_, rfl, ?_, ?_, ?_⟩
    · exact ⟨List.nodup_nil, by simp [live], fun b => by simp [live, chainOf]⟩
    · intro i tb htb
      cases htb
    · intro i tb htb
      cases htb
    · intro i tb htb
      cases htb
  | @snoc ops op h ho ih =>
    obtain ⟨sh, hsh, hr⟩ := ih
    obtain ⟨sh', hsh', hr'⟩ := hr.step h ho
    refine ⟨sh', ?_, hr'⟩
    unfold runOps at hsh ⊢
    rw [List.foldlM_append, hsh]
    simpa using hsh'

/-! ## The table after any history -/

theorem Reflects.answers_eq {ops : List StoreOp} {s : TbStore} (hr : Reflects ops s)
    (pc : BitVec 64) (flags : BitVec 32) (i : Nat) :
    answers s pc flags i = (decide ((allocated ops)[i]? = some (pc, flags)) &&
      decide (StoreOp.invalidate i ∉ ops)) := by
  cases htb : s.get i with
  | none =>
    have hi : (allocated ops)[i]? = none := by
      unfold TbStore.get at htb
      rw [List.getElem?_eq_none_iff] at htb ⊢
      rw [← hr.length_eq]
      exact htb
    simp [answers, htb, hi]
  | some tb =>
    have hb := hr.blocks i tb htb
    have hv := hr.invalid i tb htb
    rw [Bool.eq_iff_iff]
    simp only [answers, htb, Option.any_some, isFor_iff, hb, Option.some.injEq, Prod.mk.injEq,
      Bool.and_eq_true, decide_eq_true_eq, ← hv, Bool.not_eq_true]
    tauto

theorem Reflects.mostRecent_eq {ops : List StoreOp} {s : TbStore} (hops : Admissible ops)
    (hr : Reflects ops s) (pc : BitVec 64) (flags : BitVec 32) :
    (live ops).find? (answers s pc flags) = mostRecent ops pc flags := by
  have hans : answers s pc flags = fun i => decide ((allocated ops)[i]? = some (pc, flags)) &&
      decide (StoreOp.invalidate i ∉ ops) := funext (hr.answers_eq pc flags)
  rw [hans]
  refine find?_of_sublist (live_sublist_insertions ops) hops.insertions_nodup ?_
  intro i hi hp
  simp only [Bool.and_eq_true, decide_eq_true_eq] at hp
  rw [hops.mem_live_iff]
  obtain ⟨before, after, hsplit⟩ := List.append_of_mem (mem_insertions.mp hi)
  refine ⟨before, after, hsplit, fun hm => hp.2 ?_⟩
  rw [hsplit]
  exact List.mem_append_right _ (List.mem_cons_of_mem _ hm)

/-- Every admissible sequence of calls runs through, and leaves bucket chains that are
acyclic, disjoint, hold the right blocks, and answer every lookup. -/
theorem hash_table_reflects_history (ops : List StoreOp) (hops : Admissible ops)
    (buf : CodeBuffer) :
    ∃ sh chains, runOps ops buf = some sh ∧ HashTableSpec ops sh.store chains := by
  obtain ⟨sh, hsh, hr⟩ := hops.run buf
  have hlinked := hr.table.linked
  refine ⟨sh, chainOf sh.store (live ops), hsh, hlinked, fun b => (hlinked b).nodup, ?_, ?_, ?_, ?_⟩
  · intro b b' hne i hi hi'
    have h := (mem_chainOf.mp hi).2
    rw [(mem_chainOf.mp hi').2] at h
    exact hne (Option.some.inj h).symm
  · intro b i hi
    obtain ⟨hmem, hb⟩ := mem_chainOf.mp hi
    unfold bucketOf at hb
    obtain ⟨tb, htb, hash_eq⟩ := Option.map_eq_some_iff.mp hb
    exact ⟨tb, htb, hash_eq⟩
  · intro i
    rw [← hops.mem_live_iff]
    constructor
    · rintro ⟨b, hi⟩
      exact (mem_chainOf.mp hi).1
    · intro hi
      obtain ⟨tb, htb⟩ := get_of_lt (hr.table.exist i hi)
      exact ⟨hash tb.pc tb.flags, mem_chainOf.mpr ⟨hi, by simp [bucketOf, htb]⟩⟩
  · intro pc flags fuel hfuel
    rw [hr.table.lookupFrom pc flags hfuel, hr.mostRecent_eq hops]

/-- Two blocks for the same pc; the later one is invalidated twice, so the earlier one is found. -/
theorem hash_table_reflects_reinsertion :
    (∃ sh chains, runOps [.alloc 16 0 0, .alloc 16 0 0, .insert 0, .insert 1, .invalidate 1,
        .invalidate 1, .lookup 16 0] ⟨16, 0, fun _ => 0⟩ = some sh ∧
      HashTableSpec [.alloc 16 0 0, .alloc 16 0 0, .insert 0, .insert 1, .invalidate 1,
        .invalidate 1, .lookup 16 0] sh.store chains) ∧
    mostRecent [.alloc 16 0 0, .alloc 16 0 0, .insert 0, .insert 1, .invalidate 1,
      .invalidate 1, .lookup 16 0] 16 0 = some 0 := by
  refine ⟨hash_table_reflects_history _ ?_ _, by decide⟩
  have h₁ : Admissible [.alloc 16 0 0, .alloc 16 0 0] :=
    (Admissible.nil.snoc (by unfold Allowed; decide)).snoc (by unfold Allowed; decide)
  have h₂ : Admissible [.alloc 16 0 0, .alloc 16 0 0, .insert 0, .insert 1] :=
    (h₁.snoc (by unfold Allowed; decide)).snoc (by unfold Allowed; decide)
  have h₃ : Admissible [.alloc 16 0 0, .alloc 16 0 0, .insert 0, .insert 1, .invalidate 1,
      .invalidate 1] :=
    (h₂.snoc (by unfold Allowed; decide)).snoc (by unfold Allowed; decide)
  exact h₃.snoc trivial

/-- A block invalidated between its allocation and its insertion is on a chain all the same. -/
theorem invalidated_before_insert_is_chained :
    ¬ ∀ ops, Admissible ops → ∀ buf, ∃ sh,
      ∃ chains : Fin tbHashSize → List Nat, runOps ops buf = some sh ∧
      (∀ b, Linked (hashNextOf sh.store) (sh.store.hash b) (chains b)) ∧
      ∀ i, (∃ b, i ∈ chains b) ↔ (StoreOp.insert i ∈ ops ∧ StoreOp.invalidate i ∉ ops) := by
  intro h
  have hops : Admissible [.alloc 0 0 0, .invalidate 0, .insert 0] :=
    ((Admissible.nil.snoc (by unfold Allowed; decide)).snoc (by unfold Allowed; decide)).snoc
      (by unfold Allowed; decide)
  obtain ⟨sh, chains, hsh, hlinked, hmem⟩ := h _ hops ⟨16, 0, fun _ => 0⟩
  obtain ⟨sh', hsh', hr⟩ := hops.run ⟨16, 0, fun _ => 0⟩
  rw [hsh] at hsh'
  injection hsh' with hsh'
  subst hsh'
  have hlive : 0 ∈ live [.alloc 0 0 0, .invalidate 0, .insert 0] := by decide
  obtain ⟨tb, htb⟩ := get_of_lt (hr.table.exist 0 hlive)
  have hchain := mem_chainOf.mpr
    ⟨hlive, (by simp [bucketOf, htb] : bucketOf sh.store 0 = some (hash tb.pc tb.flags))⟩
  rw [(hr.table.linked _).unique (hlinked _)] at hchain
  exact absurd ((hmem 0).mp ⟨_, hchain⟩).2 (by decide)

end TcgRs.Analysis.StoreHistory
