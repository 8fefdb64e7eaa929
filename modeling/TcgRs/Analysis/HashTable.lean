import TcgRs.Library.LinkedChain
import TcgRs.Model.Exec.TbStore

/-!
# The hash table of the block store

The chains through `hash_next` hold, for every bucket, the blocks that were inserted and not
removed since, the most recent one first.  `TableInv s live` states this for the whole list
`live` of such blocks; every section of the store keeps it, and it gives `lookup` its meaning.
-/

set_option autoImplicit false

namespace TcgRs.Analysis.HashTable

open TcgRs.Model TcgRs.Model.Exec TcgRs.Library TranslationBlock

/-! ## Reading a modified store -/

@[simp] theorem get_modify (s : TbStore) (i j : Nat) (f : TranslationBlock → TranslationBlock) :
    (s.modify i f).get j = (s.get j).map (fun tb => if i = j then f tb else tb) := by
  simp only [TbStore.get, TbStore.modify, List.getElem?_modify]
  rfl

/-- A write that does not change what `g` reads. -/
theorem map_get_modify {β : Type*} (g : TranslationBlock → β) (s : TbStore) (i j : Nat)
    {f : TranslationBlock → TranslationBlock} (hf : ∀ tb, g (f tb) = g tb) :
    ((s.modify i f).get j).map g = (s.get j).map g := by
  rw [get_modify, Option.map_map]
  congr 1
  funext tb
  by_cases h : i = j
  · simp only [Function.comp, if_pos h, hf]
  · simp only [Function.comp, if_neg h]

@[simp] theorem hash_modify (s : TbStore) (i : Nat) (f : TranslationBlock → TranslationBlock) :
    (s.modify i f).hash = s.hash := rfl

@[simp] theorem length_modify (s : TbStore) (i : Nat)
    (f : TranslationBlock → TranslationBlock) : (s.modify i f).tbs.length = s.tbs.length := by
  simp [TbStore.modify]

theorem get_eq_some_lt {s : TbStore} {i : Nat} {tb : TranslationBlock} (h : s.get i = some tb) :
    i < s.tbs.length := by
  unfold TbStore.get at h
  exact (List.getElem?_eq_some_iff.mp h).1

theorem get_of_lt {s : TbStore} {i : Nat} (h : i < s.tbs.length) : ∃ tb, s.get i = some tb :=
  ⟨s.tbs[i], List.getElem?_eq_getElem h⟩

/-! ## The invariant -/

/-- The successor of a block in its hash chain. -/
def hashNextOf (s : TbStore) (i : Nat) : Option Nat := (s.get i).bind (·.hashNext)

/-- The bucket a block belongs to. -/
def bucketOf (s : TbStore) (i : Nat) : Option (Fin tbHashSize) :=
  (s.get i).map (fun tb => hash tb.pc tb.flags)

/-- The members of bucket `b` among the blocks of `live`. -/
def chainOf (s : TbStore) (live : List Nat) (b : Fin tbHashSize) : List Nat :=
  live.filter (fun i => decide (bucketOf s i = some b))

theorem mem_chainOf {s : TbStore} {live : List Nat} {b : Fin tbHashSize} {i : Nat} :
    i ∈ chainOf s live b ↔ i ∈ live ∧ bucketOf s i = some b := by
  simp [chainOf]

/-- The buckets chain up exactly the blocks of `live`, in the order of `live`. -/
structure TableInv (s : TbStore) (live : List Nat) : Prop where
  nodup : live.Nodup
  exist : ∀ i ∈ live, i < s.tbs.length
  linked : ∀ b, Linked (hashNextOf s) (s.hash b) (chainOf s live b)

/-- The two stores agree on everything the hash table consists of. -/
structure SameTable (s s' : TbStore) : Prop where
  length_eq : s'.tbs.length = s.tbs.length
  hash_eq : s'.hash = s.hash
  key_eq : ∀ i, (s'.get i).map (fun tb => (tb.pc, tb.flags, tb.hashNext)) =
    (s.get i).map (fun tb => (tb.pc, tb.flags, tb.hashNext))

theorem SameTable.refl (s : TbStore) : SameTable s s := ⟨rfl, rfl, fun _ => rfl⟩

theorem SameTable.trans {s₁ s₂ s₃ : TbStore} (h : SameTable s₁ s₂) (h' : SameTable s₂ s₃) :
    SameTable s₁ s₃ :=
  ⟨h'.length_eq.trans h.length_eq, h'.hash_eq.trans h.hash_eq,
    fun i => (h'.key_eq i).trans (h.key_eq i)⟩

theorem sameTable_modify (s : TbStore) (i : Nat) (f : TranslationBlock → TranslationBlock)
    (hf : ∀ tb, ((f tb).pc, (f tb).flags, (f tb).hashNext) = (tb.pc, tb.flags, tb.hashNext)) :
    SameTable s (s.modify i f) :=
  ⟨length_modify s i f, rfl, fun j => map_get_modify _ s i j hf⟩

theorem SameTable.hashNextOf_eq {s s' : TbStore} (h : SameTable s s') :
    hashNextOf s' = hashNextOf s := by
  funext i
  have hk := congrArg (fun o => o.bind (fun k => k.2.2)) (h.key_eq i)
  simpa [hashNextOf, Option.bind_map, Function.comp_def] using hk

theorem SameTable.bucketOf_eq {s s' : TbStore} (h : SameTable s s') : bucketOf s' = bucketOf s := by
  funext i
  have hk := congrArg (fun o => o.map (fun k => TranslationBlock.hash k.1 k.2.1)) (h.key_eq i)
  simpa [bucketOf, Option.map_map, Function.comp_def] using hk

/-- Whatever leaves the table alone keeps its invariant. -/
theorem TableInv.of_same {s s' : TbStore} {live : List Nat} (hi : TableInv s live)
    (h : SameTable s s') : TableInv s' live where
  nodup := hi.nodup
  exist i hi' := by rw [h.length_eq]; exact hi.exist i hi'
  linked b := by
    have hc : chainOf s' live b = chainOf s live b := by unfold chainOf; rw [h.bucketOf_eq]
    rw [hc, h.hashNextOf_eq, h.hash_eq]
    exact hi.linked b

theorem TableInv.chain_length {s : TbStore} {live : List Nat} (hi : TableInv s live)
    (b : Fin tbHashSize) : (chainOf s live b).length ≤ s.tbs.length := by
  have hsub : chainOf s live b ⊆ List.range s.tbs.length := by
    intro i hmem
    rw [List.mem_range]
    exact hi.exist i (mem_chainOf.mp hmem).1
  have hle := List.Subperm.length_le (List.subperm_of_subset (hi.linked b).nodup hsub)
  rwa [List.length_range] at hle

/-! ## Allocation and insertion -/

theorem alloc_eq_some {s s' : TbStore} {pc : BitVec 64} {flags cflags : BitVec 32} {i : Nat}
    (h : s.alloc pc flags cflags = some (s', i)) :
    i = s.tbs.length ∧ s.tbs.length < TbStore.maxTbs ∧
      s' = { s with tbs := s.tbs ++ [TranslationBlock.new pc flags cflags] } := by
  unfold TbStore.alloc at h
  split at h
  · next hlt =>
    simp only [Option.some.injEq, Prod.mk.injEq] at h
    exact ⟨h.2.symm, hlt, h.1.symm⟩
  · cases h

theorem get_alloc {s s' : TbStore} {pc : BitVec 64} {flags cflags : BitVec 32} {i : Nat}
    (h : s.alloc pc flags cflags = some (s', i)) (j : Nat) :
    s'.get j = if j = s.tbs.length then some (TranslationBlock.new pc flags cflags)
      else s.get j := by
  obtain ⟨-, -, rfl⟩ := alloc_eq_some h
  simp only [TbStore.get]
  rcases Nat.lt_trichotomy j s.tbs.length with hj | hj | hj
  · rw [List.getElem?_append_left hj, if_neg (by omega)]
  · subst hj
    rw [List.getElem?_append_right le_rfl, if_pos rfl]
    simp
  · rw [List.getElem?_append_right (by omega), if_neg (by omega),
      List.getElem?_eq_none (by simp; omega), List.getElem?_eq_none (by omega)]

theorem TableInv.alloc {s s' : TbStore} {live : List Nat} {pc : BitVec 64}
    {flags cflags : BitVec 32} {i : Nat} (hi : TableInv s live)
    (h : s.alloc pc flags cflags = some (s', i)) : TableInv s' live := by
  have hget : ∀ j ∈ live, s'.get j = s.get j := by
    intro j hj
    have hlt := hi.exist j hj
    rw [get_alloc h, if_neg (by omega)]
  obtain ⟨-, -, hs'⟩ := alloc_eq_some h
  have hlen : s'.tbs.length = s.tbs.length + 1 := by rw [hs']; simp
  have hhash : s'.hash = s.hash := by rw [hs']
  refine ⟨hi.nodup, fun j hj => ?_, fun b => ?_⟩
  · have := hi.exist j hj
    omega
  · have hc : chainOf s' live b = chainOf s live b := by
      refine List.filter_congr (fun j hj => ?_)
      rw [bucketOf, hget j hj, bucketOf]
    rw [hc, hhash]
    refine (hi.linked b).congr (fun j hj => ?_)
    simp only [hashNextOf, hget j (mem_chainOf.mp hj).1]

/-- Insertion puts the block in front. -/
theorem TableInv.insert {s s' : TbStore} {live : List Nat} {i : Nat} (hi : TableInv s live)
    (hnew : i ∉ live) (h : s.insert i = some s') : TableInv s' (i :: live) := by
  unfold TbStore.insert at h
  obtain ⟨tb, htb, h⟩ := Option.bind_eq_some_iff.mp h
  simp only [Option.pure_def, Option.some.injEq, hash_modify] at h
  have hget : ∀ j, s'.get j = (s.get j).map (fun t => if i = j then
      { t with hashNext := s.hash (TranslationBlock.hash tb.pc tb.flags) } else t) := by
    intro j
    rw [← h]
    exact get_modify s i j _
  have hbucket : bucketOf s' = bucketOf s := by
    rw [← h]
    funext j
    exact map_get_modify _ s i j (fun _ => rfl)
  have hnext : hashNextOf s' = Function.update (hashNextOf s) i
      (s.hash (TranslationBlock.hash tb.pc tb.flags)) := by
    funext j
    by_cases hij : j = i
    · subst hij
      simp [hashNextOf, hget, htb]
    · have hij' : ¬ i = j := fun h => hij h.symm
      rw [Function.update_of_ne hij, hashNextOf, hget]
      simp [hij', hashNextOf]
  have hbi : bucketOf s i = some (TranslationBlock.hash tb.pc tb.flags) := by
    simp [bucketOf, htb]
  refine ⟨List.nodup_cons.mpr ⟨hnew, hi.nodup⟩, ?_, fun b => ?_⟩
  · intro j hj
    have hlen : s'.tbs.length = s.tbs.length := by rw [← h]; exact length_modify s i _
    rw [hlen]
    rcases List.mem_cons.mp hj with rfl | hj
    · exact get_eq_some_lt htb
    · exact hi.exist j hj
  · have hni : i ∉ chainOf s live b := fun hm => hnew (mem_chainOf.mp hm).1
    have hhash : s'.hash b = if b = TranslationBlock.hash tb.pc tb.flags then some i
        else s.hash b := by
      rw [← h]
      exact Function.update_apply _ _ _ _
    rw [hnext, hhash]
    by_cases hb : b = TranslationBlock.hash tb.pc tb.flags
    · subst hb
      have hc : chainOf s' (i :: live) (TranslationBlock.hash tb.pc tb.flags) =
          i :: chainOf s live (TranslationBlock.hash tb.pc tb.flags) := by
        simp [chainOf, hbucket, hbi]
      rw [hc, if_pos rfl]
      exact (hi.linked _).prepend hni
    · have hne : TranslationBlock.hash tb.pc tb.flags ≠ b := fun he => hb he.symm
      have hc : chainOf s' (i :: live) b = chainOf s live b := by
        simp [chainOf, hbucket, hbi, hne]
      rw [hc, if_neg hb]
      refine (hi.linked b).congr (fun j hj => ?_)
      exact Function.update_of_ne (fun (hji : j = i) => hni (hji ▸ hj)) _ _

/-! ## Lookup -/

/-- The block is a valid one for `(pc, flags)`. -/
def answers (s : TbStore) (pc : BitVec 64) (flags : BitVec 32) (i : Nat) : Bool :=
  (s.get i).any (fun tb => tb.isFor pc flags)

/-- The walk of `lookup` ends and finds the first block of the chain that answers. -/
theorem lookupFrom_eq {s : TbStore} {pc : BitVec 64} {flags : BitVec 32} {cur : Option Nat}
    {l : List Nat} {fuel : Nat} (hl : Linked (hashNextOf s) cur l)
    (hlt : ∀ i ∈ l, i < s.tbs.length) (hfuel : l.length ≤ fuel) :
    s.lookupFrom pc flags fuel cur = some (l.find? (answers s pc flags)) := by
  induction l generalizing cur fuel with
  | nil =>
    rw [Linked.nil_iff] at hl
    subst hl
    cases fuel <;> rfl
  | cons i l ih =>
    obtain ⟨rfl, hl⟩ := hl
    obtain ⟨tb, htb⟩ := get_of_lt (hlt i List.mem_cons_self)
    have hnext : hashNextOf s i = tb.hashNext := by simp [hashNextOf, htb]
    rw [hnext] at hl
    cases fuel with
    | zero => exact absurd hfuel (by simp)
    | succ fuel =>
      rw [List.length_cons] at hfuel
      have ih' := ih hl (fun j hj => hlt j (List.mem_cons_of_mem i hj)) (by omega : l.length ≤ fuel)
      have hans : answers s pc flags i = tb.isFor pc flags := by simp [answers, htb]
      simp only [TbStore.lookupFrom, htb, Option.bind_eq_bind, Option.bind_some, Option.pure_def,
        List.find?_cons, hans]
      cases tb.isFor pc flags with
      | true => rfl
      | false => simpa using ih'

theorem answers_bucket {s : TbStore} {pc : BitVec 64} {flags : BitVec 32} {i : Nat}
    (h : answers s pc flags i = true) : bucketOf s i = some (hash pc flags) := by
  unfold answers at h
  obtain ⟨tb, htb, hfor⟩ := (Option.any_eq_true _ _).mp h
  obtain ⟨-, hpc, hflags⟩ := isFor_iff.mp hfor
  simp [bucketOf, htb, hpc, hflags]

/-- Looking only into the right bucket misses nothing. -/
theorem find?_chainOf (s : TbStore) (live : List Nat) (pc : BitVec 64) (flags : BitVec 32) :
    (chainOf s live (hash pc flags)).find? (answers s pc flags) =
      live.find? (answers s pc flags) := by
  unfold chainOf
  rw [List.find?_filter]
  congr 1
  funext i
  cases ha : answers s pc flags i with
  | true => simp [answers_bucket ha]
  | false => simp

theorem TableInv.lookupFrom {s : TbStore} {live : List Nat} (hi : TableInv s live)
    (pc : BitVec 64) (flags : BitVec 32) {fuel : Nat} (hfuel : s.tbs.length ≤ fuel) :
    s.lookupFrom pc flags fuel (s.hash (hash pc flags)) =
      some (live.find? (answers s pc flags)) := by
  rw [← find?_chainOf s live pc flags]
  refine lookupFrom_eq (hi.linked _) ?_ ((hi.chain_length _).trans hfuel)
  intro i hmem
  exact hi.exist i (mem_chainOf.mp hmem).1

/-- `lookup` returns the first valid block of `live` with this pc and these flags. -/
theorem TableInv.lookup {s : TbStore} {live : List Nat} (hi : TableInv s live)
    (pc : BitVec 64) (flags : BitVec 32) :
    s.lookup pc flags = some (live.find? (answers s pc flags)) :=
  hi.lookupFrom pc flags le_rfl

/-! ## Removal -/

theorem hashRemoveFrom_of_not_mem {s : TbStore} {i : Nat} {b : Fin tbHashSize}
    {prev cur : Option Nat} {l : List Nat} {fuel : Nat} (hl : Linked (hashNextOf s) cur l)
    (hlt : ∀ j ∈ l, j < s.tbs.length) (hfuel : l.length ≤ fuel) (hi : i ∉ l) :
    s.hashRemoveFrom i b fuel prev cur = some s := by
  induction l generalizing prev cur fuel with
  | nil =>
    rw [Linked.nil_iff] at hl
    subst hl
    cases fuel <;> rfl
  | cons j l ih =>
    obtain ⟨rfl, hl⟩ := hl
    obtain ⟨tb, htb⟩ := get_of_lt (hlt j List.mem_cons_self)
    have hnext : hashNextOf s j = tb.hashNext := by simp [hashNextOf, htb]
    rw [hnext] at hl
    rw [List.mem_cons, not_or] at hi
    have hne : ¬ j = i := fun h => hi.1 h.symm
    cases fuel with
    | zero => exact absurd hfuel (by simp)
    | succ fuel =>
      rw [List.length_cons] at hfuel
      simp only [TbStore.hashRemoveFrom, htb, Option.bind_eq_bind, Option.bind_some, if_neg hne]
      exact ih hl (fun k hk => hlt k (List.mem_cons_of_mem j hk)) (by omega) hi.2

/-- The walk stops at `i` with the node before it in `prev`. -/
theorem hashRemoveFrom_of_mem {s : TbStore} {i : Nat} {b : Fin tbHashSize}
    {prev cur : Option Nat} {l₁ l₂ : List Nat} {fuel : Nat}
    (hl : Linked (hashNextOf s) cur (l₁ ++ i :: l₂)) (hlt : ∀ j ∈ l₁ ++ i :: l₂, j < s.tbs.length)
    (hfuel : (l₁ ++ i :: l₂).length ≤ fuel) (hi : i ∉ l₁) :
    s.hashRemoveFrom i b fuel prev cur =
      some (s.unlinkNode b (l₁.getLast?.or prev) i (hashNextOf s i)) := by
  induction l₁ generalizing prev cur fuel with
  | nil =>
    obtain ⟨rfl, hl⟩ := hl
    obtain ⟨tb, htb⟩ := get_of_lt (hlt i List.mem_cons_self)
    have hnext : hashNextOf s i = tb.hashNext := by simp [hashNextOf, htb]
    cases fuel with
    | zero => exact absurd hfuel (by simp)
    | succ fuel => simp [TbStore.hashRemoveFrom, htb, hnext]
  | cons j l₁ ih =>
    obtain ⟨rfl, hl⟩ := hl
    obtain ⟨tb, htb⟩ := get_of_lt (hlt j List.mem_cons_self)
    have hnext : hashNextOf s j = tb.hashNext := by simp [hashNextOf, htb]
    rw [hnext] at hl
    rw [List.mem_cons, not_or] at hi
    have hne : ¬ j = i := fun h => hi.1 h.symm
    cases fuel with
    | zero => exact absurd hfuel (by simp)
    | succ fuel =>
      rw [List.cons_append, List.length_cons] at hfuel
      simp only [TbStore.hashRemoveFrom, htb, Option.bind_eq_bind, Option.bind_some, if_neg hne]
      rw [ih hl (fun k hk => hlt k (List.mem_cons_of_mem j hk)) (by omega) hi.2,
        List.getLast?_cons]
      cases l₁.getLast? <;> rfl

theorem hashNextOf_setNext {s : TbStore} {i : Nat} {next : Option Nat} (hi : i < s.tbs.length) :
    hashNextOf (s.modify i (fun tb => { tb with hashNext := next })) =
      Function.update (hashNextOf s) i next := by
  funext j
  by_cases hij : j = i
  · subst hij
    obtain ⟨tb, htb⟩ := get_of_lt hi
    simp [hashNextOf, htb]
  · have hij' : ¬ i = j := fun h => hij h.symm
    rw [Function.update_of_ne hij]
    simp [hashNextOf, hij']

theorem bucketOf_setNext (s : TbStore) (i : Nat) (next : Option Nat) :
    bucketOf (s.modify i (fun tb => { tb with hashNext := next })) = bucketOf s := by
  funext j
  exact map_get_modify _ s i j (fun _ => rfl)

theorem chainOf_erase {s : TbStore} {live : List Nat} (hnd : live.Nodup) (i : Nat)
    (b : Fin tbHashSize) : chainOf s (live.erase i) b = (chainOf s live b).erase i := by
  unfold chainOf
  rw [hnd.erase_eq_filter, (hnd.filter _).erase_eq_filter, List.filter_filter, List.filter_filter]
  congr 1
  funext j
  exact Bool.and_comm _ _

/-- The node and its predecessor are the only blocks that the removal writes to, and the
bucket is the only head. -/
theorem unlinkNode_linked {s : TbStore} {b : Fin tbHashSize} {i : Nat} {l₁ l₂ : List Nat}
    (hl : Linked (hashNextOf s) (s.hash b) (l₁ ++ i :: l₂))
    (hlt : ∀ j ∈ l₁ ++ i :: l₂, j < s.tbs.length) :
    let s' := s.unlinkNode b l₁.getLast? i (hashNextOf s i)
    Linked (hashNextOf s') (s'.hash b) (l₁ ++ l₂) ∧ bucketOf s' = bucketOf s ∧
      s'.tbs.length = s.tbs.length ∧ (∀ b', b' ≠ b → s'.hash b' = s.hash b') ∧
      ∀ j, j ∉ l₁ ++ i :: l₂ → hashNextOf s' j = hashNextOf s j := by
  have hilt : i < s.tbs.length := hlt i (List.mem_append_right _ List.mem_cons_self)
  rcases List.eq_nil_or_concat l₁ with rfl | ⟨l, p, rfl⟩
  · -- the head of the bucket is replaced
    intro s'
    have hnext : hashNextOf s' = Function.update (hashNextOf s) i none :=
      hashNextOf_setNext (s := { s with hash := Function.update s.hash b (hashNextOf s i) }) hilt
    have hhash : s'.hash = Function.update s.hash b (hashNextOf s i) := rfl
    refine ⟨?_, bucketOf_setNext _ _ _, length_modify _ _ _, ?_, ?_⟩
    · rw [hnext, hhash, Function.update_self]
      exact Linked.unlink_head hl
    · intro b' hb'
      rw [hhash, Function.update_of_ne hb']
    · intro j hj
      have hji : j ≠ i := fun h => hj (h ▸ List.mem_cons_self)
      rw [hnext, Function.update_of_ne hji]
  · -- an inner node is bridged by its predecessor
    rw [List.concat_eq_append] at hl hlt ⊢
    intro s'
    have hlast : (l ++ [p]).getLast? = some p := by simp
    have hplt : p < s.tbs.length := hlt p (by simp)
    have hs' : s' = (s.modify p (fun tb => { tb with hashNext := hashNextOf s i })).modify i
        (fun tb => { tb with hashNext := none }) := by
      simp only [s', hlast, TbStore.unlinkNode]
    have hnext : hashNextOf s' =
        Function.update (Function.update (hashNextOf s) p (hashNextOf s i)) i none := by
      rw [hs', hashNextOf_setNext (by simpa using hilt), hashNextOf_setNext hplt]
    have hhash : s'.hash = s.hash := by rw [hs']; rfl
    have hl' : Linked (hashNextOf s) (s.hash b) (l ++ p :: i :: l₂) := by simpa using hl
    refine ⟨?_, ?_, ?_, ?_, ?_⟩
    · rw [hnext, hhash]
      simpa using Linked.unlink_inner hl'
    · rw [hs', bucketOf_setNext, bucketOf_setNext]
    · rw [hs', length_modify, length_modify]
    · intro b' _
      rw [hhash]
    · intro j hj
      have hji : j ≠ i := fun h => hj (by simp [h])
      have hjp : j ≠ p := fun h => hj (by simp [h])
      rw [hnext, Function.update_of_ne hji, Function.update_of_ne hjp]

/-- Step 3 of `invalidate` ends, and takes exactly the block `i` out of the table. -/
theorem TableInv.hashRemove {s : TbStore} {live : List Nat} {i : Nat} (hi : TableInv s live)
    (hlt : i < s.tbs.length) :
    ∃ s', s.hashRemove i = some s' ∧ TableInv s' (live.erase i) := by
  obtain ⟨tb, htb⟩ := get_of_lt hlt
  have hb : bucketOf s i = some (hash tb.pc tb.flags) := by simp [bucketOf, htb]
  have hchain : ∀ j ∈ chainOf s live (hash tb.pc tb.flags), j < s.tbs.length :=
    fun j hj => hi.exist j (mem_chainOf.mp hj).1
  simp only [TbStore.hashRemove, htb, Option.bind_eq_bind, Option.bind_some]
  by_cases hmem : i ∈ live
  · obtain ⟨l₁, l₂, hsplit⟩ := List.append_of_mem (mem_chainOf.mpr ⟨hmem, hb⟩)
    have hl := hi.linked (hash tb.pc tb.flags)
    have hfuel := hi.chain_length (hash tb.pc tb.flags)
    have hnd := hl.nodup
    rw [hsplit] at hl hfuel hchain hnd
    have hi₁ : i ∉ l₁ := by
      intro h
      exact (List.disjoint_of_nodup_append hnd) h List.mem_cons_self
    refine ⟨_, hashRemoveFrom_of_mem hl hchain hfuel hi₁, ?_⟩
    rw [Option.or_none]
    obtain ⟨hl', hbucket, hlen, hhash, hnext⟩ := unlinkNode_linked hl hchain
    refine ⟨hi.nodup.erase i, ?_, fun b => ?_⟩
    · intro j hj
      rw [hlen]
      exact hi.exist j (List.mem_of_mem_erase hj)
    · have hc : ∀ s' : TbStore, bucketOf s' = bucketOf s →
          chainOf s' (live.erase i) b = (chainOf s live b).erase i := by
        intro s' hs'
        rw [← chainOf_erase hi.nodup]
        unfold chainOf
        rw [hs']
      rw [hc _ hbucket]
      by_cases hbb : b = hash tb.pc tb.flags
      · subst hbb
        rw [hsplit, List.erase_append_right _ hi₁, List.erase_cons_head]
        exact hl'
      · have hib : i ∉ chainOf s live b := by
          intro h
          have := (mem_chainOf.mp h).2
          rw [hb] at this
          exact hbb (Option.some.inj this).symm
        rw [List.erase_of_not_mem hib, hhash b hbb]
        refine (hi.linked b).congr (fun j hj => hnext j ?_)
        intro h
        rw [← hsplit] at h
        have h1 := (mem_chainOf.mp h).2
        have h2 := (mem_chainOf.mp hj).2
        rw [h1] at h2
        exact hbb (Option.some.inj h2).symm
  · refine ⟨s, ?_, ?_⟩
    · refine hashRemoveFrom_of_not_mem (hi.linked _) hchain (hi.chain_length _) ?_
      exact fun h => hmem (mem_chainOf.mp h).1
    · rw [List.erase_of_not_mem hmem]
      exact hi

/-! ## What the table operations leave alone -/

/-- A block without its chain link. -/
def core (tb : TranslationBlock) : TranslationBlock := { tb with hashNext := none }

/-- The two stores hold the same blocks up to their chain links. -/
structure SameCore (s s' : TbStore) : Prop where
  length_eq : s'.tbs.length = s.tbs.length
  core_eq : ∀ i, (s'.get i).map core = (s.get i).map core

theorem SameCore.refl (s : TbStore) : SameCore s s := ⟨rfl, fun _ => rfl⟩

theorem SameCore.trans {s₁ s₂ s₃ : TbStore} (h : SameCore s₁ s₂) (h' : SameCore s₂ s₃) :
    SameCore s₁ s₃ :=
  ⟨h'.length_eq.trans h.length_eq, fun i => (h'.core_eq i).trans (h.core_eq i)⟩

theorem SameCore.symm {s s' : TbStore} (h : SameCore s s') : SameCore s' s :=
  ⟨h.length_eq.symm, fun i => (h.core_eq i).symm⟩

/-- The block after the operation, by its form before. -/
theorem SameCore.get_eq {s s' : TbStore} (h : SameCore s s') {i : Nat} {tb' : TranslationBlock}
    (htb' : s'.get i = some tb') :
    ∃ tb, s.get i = some tb ∧ tb' = { tb with hashNext := tb'.hashNext } := by
  have hc := h.core_eq i
  rw [htb'] at hc
  cases htb : s.get i with
  | none => rw [htb] at hc; cases hc
  | some tb =>
    rw [htb] at hc
    simp only [Option.map_some, Option.some.injEq] at hc
    refine ⟨tb, rfl, ?_⟩
    have hc' : ({ core tb' with hashNext := tb'.hashNext } : TranslationBlock) =
        { core tb with hashNext := tb'.hashNext } := by rw [hc]
    exact hc'

/-- Anything but the chain links reads the same. -/
theorem SameCore.map_get {β : Type*} {s s' : TbStore} (h : SameCore s s')
    (g : TranslationBlock → β) (hg : ∀ tb, g (core tb) = g tb) (i : Nat) :
    (s'.get i).map g = (s.get i).map g := by
  have hc := congrArg (fun o => o.map g) (h.core_eq i)
  simpa only [Option.map_map, Function.comp_def, hg] using hc

theorem sameCore_setNext (s : TbStore) (i : Nat) (next : Option Nat) :
    SameCore s (s.modify i (fun tb => { tb with hashNext := next })) := by
  exact ⟨length_modify s i _, fun j => map_get_modify core s i j (fun _ => rfl)⟩

theorem insert_sameCore {s s' : TbStore} {i : Nat} (h : s.insert i = some s') : SameCore s s' := by
  unfold TbStore.insert at h
  obtain ⟨tb, -, h⟩ := Option.bind_eq_some_iff.mp h
  simp only [Option.pure_def, Option.some.injEq] at h
  subst h
  exact ⟨length_modify _ _ _, (sameCore_setNext s i _).core_eq⟩

theorem unlinkNode_sameCore (s : TbStore) (b : Fin tbHashSize) (prev : Option Nat) (i : Nat)
    (next : Option Nat) : SameCore s (s.unlinkNode b prev i next) := by
  cases prev with
  | none =>
    have h : SameCore s { s with hash := Function.update s.hash b next } := ⟨rfl, fun _ => rfl⟩
    exact h.trans (sameCore_setNext _ i none)
  | some p =>
    have h := sameCore_setNext s p next
    exact h.trans (sameCore_setNext _ i none)

theorem hashRemove_sameCore {s s' : TbStore} {i : Nat} (h : s.hashRemove i = some s') :
    SameCore s s' := by
  have hfrom : ∀ fuel b prev cur, s.hashRemoveFrom i b fuel prev cur = some s' → SameCore s s' := by
    intro fuel
    induction fuel with
    | zero =>
      intro b prev cur h
      cases cur with
      | none =>
        simp only [TbStore.hashRemoveFrom, Option.some.injEq] at h
        exact h ▸ SameCore.refl s
      | some j => simp [TbStore.hashRemoveFrom] at h
    | succ fuel ih =>
      intro b prev cur h
      cases cur with
      | none =>
        simp only [TbStore.hashRemoveFrom, Option.some.injEq] at h
        exact h ▸ SameCore.refl s
      | some j =>
        rw [TbStore.hashRemoveFrom] at h
        obtain ⟨tb, -, h⟩ := Option.bind_eq_some_iff.mp h
        split at h
        · simp only [Option.pure_def, Option.some.injEq] at h
          exact h ▸ unlinkNode_sameCore s b prev j tb.hashNext
        · exact ih b (some j) tb.hashNext h
  unfold TbStore.hashRemove at h
  obtain ⟨tb, -, h⟩ := Option.bind_eq_some_iff.mp h
  exact hfrom _ _ _ _ h

/-! ## What a block answers for -/

/-- What a block was translated for, and whether it is invalidated. -/
def keyOf (s : TbStore) (i : Nat) : Option (BitVec 64 × BitVec 32 × Bool) :=
  (s.get i).map (fun tb => (tb.pc, tb.flags, tb.invalid))

theorem answers_iff {s : TbStore} {pc : BitVec 64} {flags : BitVec 32} {i : Nat} :
    answers s pc flags i = true ↔ keyOf s i = some (pc, flags, false) := by
  cases htb : s.get i with
  | none => simp [answers, keyOf, htb]
  | some tb =>
    simp only [answers, keyOf, htb, Option.any_some, isFor_iff, Option.map_some, Option.some.injEq,
      Prod.mk.injEq]
    tauto

theorem keyOf_of_sameCore {s s' : TbStore} (h : SameCore s s') (i : Nat) :
    keyOf s' i = keyOf s i :=
  h.map_get _ (fun _ => rfl) i

theorem keyOf_alloc {s s' : TbStore} {pc : BitVec 64} {flags : BitVec 32} {k : Nat}
    (h : s.alloc pc flags 0 = some (s', k)) (i : Nat) :
    keyOf s' i = if i = k then some (pc, flags, false) else keyOf s i := by
  obtain ⟨hk, -, -⟩ := alloc_eq_some h
  rw [keyOf, get_alloc h, hk]
  split
  · rfl
  · rfl

theorem keyOf_markInvalid (s : TbStore) (k i : Nat) :
    keyOf (s.markInvalid k) i =
      (keyOf s i).map (fun p => (p.1, p.2.1, p.2.2 || decide (i = k))) := by
  rw [keyOf, keyOf, TbStore.markInvalid, get_modify, Option.map_map, Option.map_map]
  congr 1
  funext tb
  by_cases hik : i = k
  · simp [hik]
  · have hki : ¬ k = i := fun h => hik h.symm
    simp [hik, hki]

/-- A lookup that ends without a hit has seen every block in the table. -/
theorem lookup_none {s : TbStore} {live : List Nat} (htab : TableInv s live) {pc : BitVec 64}
    {flags : BitVec 32} (h : s.lookup pc flags = some none) :
    ∀ i ∈ live, answers s pc flags i = false := by
  rw [htab.lookup, Option.some.injEq, List.find?_eq_none] at h
  intro i hi
  exact Bool.eq_false_iff.mpr (h i hi)

theorem lookup_some {s : TbStore} {live : List Nat} (htab : TableInv s live) {pc : BitVec 64}
    {flags : BitVec 32} {i : Nat} (h : s.lookup pc flags = some (some i)) :
    answers s pc flags i = true := by
  rw [htab.lookup, Option.some.injEq] at h
  exact List.find?_some h

end TcgRs.Analysis.HashTable
