import Mathlib.Data.BitVec
import Mathlib.Data.List.Basic

/-!
# Memories and the stores made to them

A memory is a function from addresses.  A sequence of stores leaves each address with the byte of
the last store that covers it; when the stores lie apart, each of them can be read back.
-/

set_option autoImplicit false

namespace TcgRs.Library.ByteMemory

variable {β : Type} {mem : Nat → β}

/-- The memory with `bytes` stored from `addr` on. -/
def store (mem : Nat → β) (addr : Nat) (bytes : List β) : Nat → β :=
  fun x => if addr ≤ x then bytes[x - addr]?.getD (mem x) else mem x

/-- The memory with `n` copies of a byte from `addr` on. -/
def fill (mem : Nat → β) (addr n : Nat) (byte : β) : Nat → β :=
  fun x => if addr ≤ x ∧ x < addr + n then byte else mem x

/-- Stores in order. -/
def storeAll (mem : Nat → β) (stores : List (Nat × List β)) : Nat → β :=
  stores.foldl (fun mem s => store mem s.1 s.2) mem

/-- The bytes of a window. -/
def load (mem : Nat → β) (addr n : Nat) : List β := (List.range n).map fun k => mem (addr + k)

/-- The store does not reach the address. -/
def Misses (s : Nat × List β) (x : Nat) : Prop := x < s.1 ∨ s.1 + s.2.length ≤ x

/-- The windows of two stores have no address in common. -/
def Apart (s s' : Nat × List β) : Prop :=
  s.1 + s.2.length ≤ s'.1 ∨ s'.1 + s'.2.length ≤ s.1

theorem Apart.symm {s s' : Nat × List β} (h : Apart s s') : Apart s' s := Or.symm h

/-! ## One store -/

theorem store_of_misses {addr x : Nat} {bytes : List β} (h : Misses (addr, bytes) x) :
    store mem addr bytes x = mem x := by
  unfold store
  split
  · rename_i hle
    have hlen : bytes.length ≤ x - addr := by
      cases h with
      | inl h => exact absurd hle (Nat.not_le.mpr h)
      | inr h => exact Nat.le_sub_of_add_le' h
    rw [List.getElem?_eq_none hlen]
    rfl
  · rfl

theorem store_nil (mem : Nat → β) (addr : Nat) : store mem addr [] = mem := by
  funext x
  exact store_of_misses (Nat.lt_or_ge x addr)

theorem store_add {addr k : Nat} {bytes : List β} (h : k < bytes.length) :
    store mem addr bytes (addr + k) = bytes[k] := by
  unfold store
  rw [if_pos (Nat.le_add_right _ _), Nat.add_sub_cancel_left, List.getElem?_eq_getElem h]
  rfl

theorem fill_inside {addr n x : Nat} {byte : β} (hle : addr ≤ x) (hlt : x < addr + n) :
    fill mem addr n byte x = byte := if_pos ⟨hle, hlt⟩

theorem fill_outside {addr n x : Nat} {byte : β} (h : x < addr ∨ addr + n ≤ x) :
    fill mem addr n byte x = mem x := by
  apply if_neg
  intro hin
  cases h with
  | inl h => exact absurd hin.1 (Nat.not_le.mpr h)
  | inr h => exact absurd hin.2 (Nat.not_lt.mpr h)

theorem fill_fill (mem : Nat → β) (addr n : Nat) (byte byte' : β) :
    fill (fill mem addr n byte) addr n byte' = fill mem addr n byte' := by
  funext x
  unfold fill
  split
  · rfl
  · rfl

theorem load_length (mem : Nat → β) (addr n : Nat) : (load mem addr n).length = n := by
  simp [load]

theorem load_congr {mem' : Nat → β} {addr n : Nat}
    (h : ∀ k < n, mem (addr + k) = mem' (addr + k)) : load mem addr n = load mem' addr n :=
  List.map_congr_left fun k hk => h k (List.mem_range.mp hk)

theorem load_eq {addr : Nat} {bytes : List β}
    (h : ∀ (k : Nat) (hk : k < bytes.length), mem (addr + k) = bytes[k]) :
    load mem addr bytes.length = bytes := by
  unfold load
  apply List.ext_getElem
  · rw [List.length_map, List.length_range]
  · intro k _ hk
    rw [List.getElem_map, List.getElem_range]
    exact h k hk

/-! ## Many stores -/

@[simp] theorem storeAll_nil (mem : Nat → β) : storeAll mem [] = mem := rfl

@[simp] theorem storeAll_cons (mem : Nat → β) (s : Nat × List β) (ss : List (Nat × List β)) :
    storeAll mem (s :: ss) = storeAll (store mem s.1 s.2) ss := rfl

theorem storeAll_append (mem : Nat → β) (ss ss' : List (Nat × List β)) :
    storeAll mem (ss ++ ss') = storeAll (storeAll mem ss) ss' := List.foldl_append

theorem storeAll_of_misses {ss : List (Nat × List β)} {x : Nat} (h : ∀ s ∈ ss, Misses s x) :
    storeAll mem ss x = mem x := by
  induction ss generalizing mem with
  | nil => rfl
  | cons s ss ih =>
    rw [storeAll_cons, ih fun s' hs' => h s' (List.mem_cons_of_mem _ hs')]
    exact store_of_misses (h s List.mem_cons_self)

/-- A byte that some store reaches does not depend on what was there before. -/
theorem storeAll_of_reached {mem' : Nat → β} {ss : List (Nat × List β)} {x : Nat}
    (h : mem x = mem' x ∨ ∃ s ∈ ss, ¬ Misses s x) : storeAll mem ss x = storeAll mem' ss x := by
  induction ss generalizing mem mem' with
  | nil =>
    cases h with
    | inl h => exact h
    | inr h =>
      obtain ⟨s, hs, -⟩ := h
      cases hs
  | cons s ss ih =>
    rw [storeAll_cons, storeAll_cons]
    apply ih
    by_cases hmiss : Misses s x
    · cases h with
      | inl h =>
        left
        rw [store_of_misses hmiss, store_of_misses hmiss, h]
      | inr h =>
        obtain ⟨s', hs', hnot⟩ := h
        cases List.mem_cons.mp hs' with
        | inl heq => exact absurd (heq ▸ hmiss) hnot
        | inr htail => exact .inr ⟨s', htail, hnot⟩
    · left
      unfold Misses at hmiss
      obtain ⟨k, rfl⟩ := Nat.exists_eq_add_of_le (Nat.le_of_not_lt fun hlt => hmiss (.inl hlt))
      have hk : k < s.2.length := by omega
      rw [store_add hk, store_add hk]

theorem misses_of_apart {s s' : Nat × List β} (h : Apart s s') {k : Nat} (hk : k < s'.2.length) :
    Misses s (s'.1 + k) := by
  cases h with
  | inl h => exact .inr (Nat.le_add_right_of_le h)
  | inr h => exact .inl (Nat.lt_of_lt_of_le (Nat.add_lt_add_left hk _) h)

/-- Of stores that lie apart, each is still there at the end. -/
theorem storeAll_of_mem {ss : List (Nat × List β)} (hapart : ss.Pairwise Apart)
    {s : Nat × List β} (hs : s ∈ ss) {k : Nat} (hk : k < s.2.length) :
    storeAll mem ss (s.1 + k) = s.2[k] := by
  induction ss generalizing mem with
  | nil => cases hs
  | cons s' ss ih =>
    obtain ⟨hhead, htail⟩ := List.pairwise_cons.mp hapart
    rw [storeAll_cons]
    cases List.mem_cons.mp hs with
    | inl heq =>
      subst heq
      rw [storeAll_of_misses fun s' hs' => misses_of_apart (hhead s' hs').symm hk]
      exact store_add hk
    | inr hs => exact ih htail hs

/-! ## Blocks in ascending order -/

/-- Bytes to be stored at an address, and a number of bytes behind them that belong to them. -/
structure Block (β : Type) where
  addr : Nat
  bytes : List β
  gap : Nat

def Block.stop (b : Block β) : Nat := b.addr + b.bytes.length + b.gap

def Block.toStore (b : Block β) : Nat × List β := (b.addr, b.bytes)

/-- The blocks lie one behind another, from `lo` up to `hi`. -/
def Ascending (lo hi : Nat) : List (Block β) → Prop
  | [] => lo ≤ hi
  | b :: bs => lo ≤ b.addr ∧ Ascending b.stop hi bs

theorem Ascending.le {lo hi : Nat} {bs : List (Block β)} (h : Ascending lo hi bs) : lo ≤ hi := by
  induction bs generalizing lo with
  | nil => exact h
  | cons b bs ih =>
    have hlo := h.1
    have hstop := ih h.2
    unfold Block.stop at hstop
    omega

theorem Ascending.mono {lo lo' hi hi' : Nat} {bs : List (Block β)} (h : Ascending lo hi bs)
    (hlo : lo' ≤ lo) (hhi : hi ≤ hi') : Ascending lo' hi' bs := by
  induction bs generalizing lo lo' with
  | nil => exact Nat.le_trans hlo (Nat.le_trans h hhi)
  | cons b bs ih => exact ⟨Nat.le_trans hlo h.1, ih h.2 (Nat.le_refl _)⟩

theorem Ascending.append {lo mid hi : Nat} {bs bs' : List (Block β)} (h : Ascending lo mid bs)
    (h' : Ascending mid hi bs') : Ascending lo hi (bs ++ bs') := by
  induction bs generalizing lo with
  | nil =>
    cases bs' with
    | nil => exact Nat.le_trans h h'
    | cons b bs' => exact ⟨Nat.le_trans h h'.1, h'.2⟩
  | cons b bs ih => exact ⟨h.1, ih h.2⟩

theorem Ascending.inside {lo hi : Nat} {bs : List (Block β)} (h : Ascending lo hi bs)
    {b : Block β} (hb : b ∈ bs) : lo ≤ b.addr ∧ b.stop ≤ hi := by
  induction bs generalizing lo with
  | nil => cases hb
  | cons b' bs ih =>
    cases List.mem_cons.mp hb with
    | inl heq =>
      subst heq
      exact ⟨h.1, h.2.le⟩
    | inr hb =>
      obtain ⟨hlo, hhi⟩ := ih h.2 hb
      have hge := h.1
      unfold Block.stop at hlo
      exact ⟨by omega, hhi⟩

theorem Ascending.pairwise {lo hi : Nat} {bs : List (Block β)} (h : Ascending lo hi bs) :
    bs.Pairwise fun b b' => b.stop ≤ b'.addr := by
  induction bs generalizing lo with
  | nil => exact .nil
  | cons b bs ih => exact List.pairwise_cons.mpr ⟨fun _ hb => (h.2.inside hb).1, ih h.2⟩

theorem Ascending.apart {lo hi : Nat} {bs : List (Block β)} (h : Ascending lo hi bs) :
    (bs.map Block.toStore).Pairwise Apart := by
  apply List.pairwise_map.mpr
  refine h.pairwise.imp ?_
  intro b b' hle
  unfold Block.stop at hle
  exact .inl (Nat.le_of_add_right_le hle)

/-- No block reaches into the gap of one. -/
theorem Ascending.misses_gap {lo hi : Nat} {bs : List (Block β)} (h : Ascending lo hi bs)
    {b b' : Block β} (hb : b ∈ bs) (hb' : b' ∈ bs) {x : Nat} (hle : b.addr + b.bytes.length ≤ x)
    (hlt : x < b.stop) : Misses b'.toStore x := by
  induction bs generalizing lo with
  | nil => cases hb
  | cons c bs ih =>
    cases List.mem_cons.mp hb with
    | inl heq =>
      subst heq
      cases List.mem_cons.mp hb' with
      | inl heq' =>
        subst heq'
        exact .inr hle
      | inr hb' => exact .inl (Nat.lt_of_lt_of_le hlt (h.2.inside hb').1)
    | inr htail =>
      cases List.mem_cons.mp hb' with
      | inl heq' =>
        subst heq'
        have hlow := (h.2.inside htail).1
        unfold Block.stop at hlow
        refine .inr ?_
        show b'.addr + b'.bytes.length ≤ x
        omega
      | inr hb' => exact ih h.2 htail hb'

/-- Stored in any order, the blocks can all be read back, and their gaps are as they were. -/
theorem storeAll_blocks {lo hi : Nat} {bs : List (Block β)} (h : Ascending lo hi bs)
    {stores : List (Nat × List β)} (hperm : stores.Perm (bs.map Block.toStore)) {b : Block β}
    (hb : b ∈ bs) :
    (∀ (k : Nat) (hk : k < b.bytes.length), storeAll mem stores (b.addr + k) = b.bytes[k]) ∧
      ∀ x, b.addr + b.bytes.length ≤ x → x < b.stop → storeAll mem stores x = mem x := by
  constructor
  · intro k hk
    have hapart : stores.Pairwise Apart :=
      (hperm.pairwise_iff fun hs => Apart.symm hs).mpr h.apart
    exact storeAll_of_mem hapart (hperm.mem_iff.mpr (List.mem_map_of_mem hb)) hk
  · intro x hle hlt
    apply storeAll_of_misses
    intro s hs
    obtain ⟨b', hb', rfl⟩ := List.mem_map.mp (hperm.mem_iff.mp hs)
    exact h.misses_gap hb hb' hle hlt

end TcgRs.Library.ByteMemory
