import Mathlib.Data.BitVec
import Mathlib.Data.List.Basic

/-!
# Readers of byte streams

A reader takes bytes from the front of its input or fails.  `Reads r bs a` says that on the bytes
`bs`, whatever follows them, the reader returns `a` and leaves what follows: this is the form of a
round trip that composes, since the encodings of a sequence of fields are read one after another.
-/

set_option autoImplicit false

namespace TcgRs.Library

variable {ε α β : Type}

/-- A reader over a list of bytes, with errors in `ε`. -/
abbrev Reader (ε α : Type) := StateT (List UInt8) (Except ε) α

/-- Fail without reading. -/
def Reader.fail (e : ε) : Reader ε α := fun _ => .error e

/-- The next `n` bytes, or the error `eof` if there are fewer. -/
def readExact (eof : ε) (n : Nat) : Reader ε (List UInt8) := fun input =>
  if input.length < n then .error eof else .ok (input.take n, input.drop n)

/-- On the bytes `bs` the reader returns `a`, whatever follows. -/
def Reads (r : Reader ε α) (bs : List UInt8) (a : α) : Prop :=
  ∀ rest, r (bs ++ rest) = .ok (a, rest)

theorem Reads.pure (a : α) : Reads (pure a : Reader ε α) [] a := fun _ => rfl

theorem Reads.bind {r : Reader ε α} {f : α → Reader ε β} {bs bs' : List UInt8} {a : α} {b : β}
    (h : Reads r bs a) (h' : Reads (f a) bs' b) : Reads (r >>= f) (bs ++ bs') b := by
  intro rest
  rw [List.append_assoc]
  show (r (bs ++ (bs' ++ rest)) >>= fun s => f s.1 s.2) = _
  rw [h]
  exact h' rest

theorem Reads.map {r : Reader ε α} {bs : List UInt8} {a : α} (f : α → β) (h : Reads r bs a) :
    Reads (f <$> r) bs (f a) := by
  intro rest
  show (r (bs ++ rest) >>= fun s => Pure.pure (f s.1, s.2)) = _
  rw [h]
  rfl

/-- The last field of a record. -/
theorem Reads.last {r : Reader ε α} {f : α → β} {bs : List UInt8} {a : α} (h : Reads r bs a) :
    Reads (r >>= fun x => Pure.pure (f x)) bs (f a) := by
  have hbind : Reads (r >>= fun x => Pure.pure (f x)) (bs ++ []) (f a) := h.bind (Reads.pure (f a))
  rw [List.append_nil] at hbind
  exact hbind

theorem reads_readExact (eof : ε) (bs : List UInt8) : Reads (readExact eof bs.length) bs bs := by
  intro rest
  simp [readExact]

/-! ## Little-endian numbers -/

/-- The low `n` bytes of a number, the least significant first. -/
def toLeBytes : Nat → Nat → List UInt8
  | 0, _ => []
  | n + 1, v => UInt8.ofNat v :: toLeBytes n (v / 256)

def fromLeBytes : List UInt8 → Nat
  | [] => 0
  | b :: bs => b.toNat + 256 * fromLeBytes bs

@[simp] theorem length_toLeBytes (n v : Nat) : (toLeBytes n v).length = n := by
  induction n generalizing v with
  | zero => rfl
  | succ n ih => rw [toLeBytes, List.length_cons, ih]

theorem fromLeBytes_toLeBytes (n v : Nat) : fromLeBytes (toLeBytes n v) = v % 256 ^ n := by
  induction n generalizing v with
  | zero => rw [Nat.pow_zero, Nat.mod_one]; rfl
  | succ n ih =>
    rw [toLeBytes, fromLeBytes, ih, Nat.pow_succ', Nat.mod_mul]
    rfl

/-- An `n`-byte little-endian number. -/
def readLe (eof : ε) (n : Nat) : Reader ε Nat := fromLeBytes <$> readExact eof n

theorem reads_readLe (eof : ε) {n v : Nat} (hv : v < 256 ^ n) :
    Reads (readLe eof n) (toLeBytes n v) v := by
  have hread := reads_readExact eof (toLeBytes n v)
  rw [length_toLeBytes] at hread
  have hmap := hread.map fromLeBytes
  rw [fromLeBytes_toLeBytes, Nat.mod_eq_of_lt hv] at hmap
  exact hmap

/-! ## Sequences -/

/-- A counted loop reads the encodings of a list, one after another. -/
theorem reads_mapM_range' {f : Nat → Reader ε β} {encode : α → List UInt8} {decode : Nat → α → β}
    (l : List α) (start : Nat)
    (h : ∀ i x, l[i]? = some x → Reads (f (start + i)) (encode x) (decode (start + i) x)) :
    Reads ((List.range' start l.length).mapM f) (l.flatMap encode)
      (l.mapIdx fun i => decode (start + i)) := by
  induction l generalizing start with
  | nil => exact Reads.pure []
  | cons x l ih =>
    have hfirst := h 0 x rfl
    have hrest := ih (start + 1) (fun i y hy => by
      rw [Nat.add_assoc, Nat.add_comm 1 i]
      exact h (i + 1) y hy)
    rw [List.length_cons, List.range'_succ, List.mapM_cons, List.flatMap_cons, List.mapIdx_cons]
    apply Reads.bind hfirst
    have hlast := Reads.last (f := fun ys => decode start x :: ys) hrest
    simpa only [Nat.add_assoc, Nat.add_comm 1, Nat.add_zero] using hlast

theorem reads_mapM_range {f : Nat → Reader ε β} {encode : α → List UInt8} {decode : Nat → α → β}
    (l : List α) (h : ∀ i x, l[i]? = some x → Reads (f i) (encode x) (decode i x)) :
    Reads ((List.range l.length).mapM f) (l.flatMap encode) (l.mapIdx decode) := by
  have hread : Reads ((List.range' 0 l.length).mapM f) (l.flatMap encode)
      (l.mapIdx fun i => decode (0 + i)) := by
    apply reads_mapM_range' l 0
    intro i x hx
    rw [Nat.zero_add]
    exact h i x hx
  simpa only [List.range_eq_range', Nat.zero_add] using hread

theorem reads_mapM_self {f : Nat → Reader ε α} {encode : α → List UInt8} (l : List α)
    (h : ∀ i x, l[i]? = some x → Reads (f i) (encode x) x) :
    Reads ((List.range l.length).mapM f) (l.flatMap encode) l := by
  have hread : Reads ((List.range l.length).mapM f) (l.flatMap encode) (l.mapIdx fun _ x => x) :=
    reads_mapM_range l h
  have hself : l.mapIdx (fun _ x => x) = l := by
    rw [List.mapIdx_eq_iff]
    intro i
    cases l[i]? <;> rfl
  rwa [hself] at hread

/-! ## What a reader accepts -/

theorem bind_ok_iff {r : Reader ε α} {f : α → Reader ε β} {input rest : List UInt8} {b : β} :
    (r >>= f) input = .ok (b, rest) ↔
      ∃ a mid, r input = .ok (a, mid) ∧ f a mid = .ok (b, rest) := by
  show (r input >>= fun s => f s.1 s.2) = _ ↔ _
  cases h : r input with
  | error e =>
    constructor
    · intro hread
      cases hread
    · rintro ⟨a, mid, ha, -⟩
      cases ha
  | ok s =>
    constructor
    · exact fun hread => ⟨s.1, s.2, rfl, hread⟩
    · rintro ⟨a, mid, ha, hread⟩
      injection ha with ha
      rw [ha]
      exact hread

theorem bind_error_iff {r : Reader ε α} {f : α → Reader ε β} {input : List UInt8} {e : ε} :
    (r >>= f) input = .error e ↔
      r input = .error e ∨ ∃ a mid, r input = .ok (a, mid) ∧ f a mid = .error e := by
  show (r input >>= fun s => f s.1 s.2) = _ ↔ _
  cases h : r input with
  | error e' =>
    constructor
    · intro hread
      injection hread with hread
      exact Or.inl (congrArg _ hread)
    · rintro (he | ⟨a, mid, ha, -⟩)
      · injection he with he
        rw [he]
        rfl
      · cases ha
  | ok s =>
    constructor
    · exact fun hread => Or.inr ⟨s.1, s.2, rfl, hread⟩
    · rintro (he | ⟨a, mid, ha, hread⟩)
      · cases he
      · injection ha with ha
        rw [ha]
        exact hread

/-- The reader accepts exactly the encodings `bytes x` of the records `x` that are `valid`, and
reads `value x` from them. -/
def Accepts {ρ : Type} (r : Reader ε α) (valid : ρ → Prop) (bytes : ρ → List UInt8) (value : ρ → α) :
    Prop :=
  ∀ input a rest, r input = .ok (a, rest) ↔
    ∃ x, valid x ∧ input = bytes x ++ rest ∧ a = value x

variable {ρ : Type} {valid : ρ → Prop} {bytes : ρ → List UInt8}

theorem Accepts.map {r : Reader ε α} {value : ρ → α} (f : α → β) (h : Accepts r valid bytes value) :
    Accepts (f <$> r) valid bytes fun x => f (value x) := by
  intro input b rest
  rw [map_eq_pure_bind, bind_ok_iff]
  constructor
  · rintro ⟨a, mid, hread, hb⟩
    obtain ⟨x, hx, hinput, rfl⟩ := (h input a mid).mp hread
    injection hb with hb
    injection hb with hb hrest
    exact ⟨x, hx, hrest ▸ hinput, hb.symm⟩
  · rintro ⟨x, hx, hinput, rfl⟩
    exact ⟨value x, rest, (h input _ rest).mpr ⟨x, hx, hinput, rfl⟩, rfl⟩

theorem accepts_readExact (eof : ε) (n : Nat) :
    Accepts (readExact eof n) (fun bs : List UInt8 => bs.length = n) id id := by
  intro input bs rest
  unfold readExact
  constructor
  · intro h
    split at h
    · cases h
    · rename_i hlen
      injection h with h
      injection h with hbs hrest
      refine ⟨bs, ?_, ?_, rfl⟩
      · show bs.length = n
        rw [← hbs, List.length_take]
        omega
      · rw [id, ← hbs, ← hrest, List.take_append_drop]
  · rintro ⟨x, hx, rfl, rfl⟩
    simp [← hx]

theorem toLeBytes_fromLeBytes (bs : List UInt8) : toLeBytes bs.length (fromLeBytes bs) = bs := by
  induction bs with
  | nil => rfl
  | cons b bs ih =>
    have hlt : b.toNat < 256 := b.toNat_lt
    rw [List.length_cons, fromLeBytes, toLeBytes]
    congr 1
    · apply UInt8.toNat_inj.mp
      rw [UInt8.toNat_ofNat']
      omega
    · rw [show (b.toNat + 256 * fromLeBytes bs) / 256 = fromLeBytes bs by omega]
      exact ih

theorem fromLeBytes_lt (bs : List UInt8) : fromLeBytes bs < 256 ^ bs.length := by
  induction bs with
  | nil => exact Nat.one_pos
  | cons b bs ih =>
    have hlt : b.toNat < 256 := b.toNat_lt
    rw [List.length_cons, fromLeBytes, Nat.pow_succ]
    omega

theorem accepts_readLe (eof : ε) (n : Nat) :
    Accepts (readLe eof n) (fun v => v < 256 ^ n) (toLeBytes n) id := by
  intro input v rest
  rw [readLe, (accepts_readExact eof n).map fromLeBytes input v rest]
  constructor
  · rintro ⟨bs, hlen, hinput, rfl⟩
    refine ⟨fromLeBytes bs, hlen ▸ fromLeBytes_lt bs, ?_, rfl⟩
    rw [hinput, ← hlen, toLeBytes_fromLeBytes]
    rfl
  · rintro ⟨v, hv, hinput, rfl⟩
    refine ⟨toLeBytes n v, length_toLeBytes n v, hinput, ?_⟩
    show v = fromLeBytes (toLeBytes n v)
    rw [fromLeBytes_toLeBytes, Nat.mod_eq_of_lt hv]

/-- A counted loop accepts the encodings of as many records. -/
theorem accepts_mapM_range' {f : Nat → Reader ε β} {value : Nat → ρ → β}
    (h : ∀ i, Accepts (f i) valid bytes (value i)) (start n : Nat) :
    Accepts ((List.range' start n).mapM f) (fun xs : List ρ => xs.length = n ∧ ∀ x ∈ xs, valid x)
      (fun xs => xs.flatMap bytes) (fun xs => xs.mapIdx fun i => value (start + i)) := by
  induction n generalizing start with
  | zero =>
    intro input bs rest
    constructor
    · intro hread
      injection hread with hread
      injection hread with hbs hrest
      exact ⟨[], ⟨rfl, nofun⟩, hrest, hbs.symm⟩
    · rintro ⟨xs, ⟨hlen, -⟩, rfl, rfl⟩
      rw [List.length_eq_zero_iff.mp hlen]
      rfl
  | succ n ih =>
    intro input bs rest
    have hshift : ∀ (x : ρ) (xs : List ρ), (x :: xs).mapIdx (fun i => value (start + i)) =
        value start x :: xs.mapIdx fun i => value (start + 1 + i) := by
      intro x xs
      rw [List.mapIdx_cons]
      simp only [Nat.add_zero, Nat.add_assoc, Nat.add_comm 1]
    rw [List.range'_succ, List.mapM_cons, bind_ok_iff]
    constructor
    · rintro ⟨b, mid, hfirst, hread⟩
      obtain ⟨bs', mid', hrest, hpure⟩ := bind_ok_iff.mp hread
      obtain ⟨x, hx, rfl, rfl⟩ := (h start input b mid).mp hfirst
      obtain ⟨xs, ⟨hlen, hxs⟩, rfl, rfl⟩ := (ih (start + 1) mid bs' mid').mp hrest
      injection hpure with hpure
      injection hpure with hbs hmid
      refine ⟨x :: xs, ⟨by rw [List.length_cons, hlen], ?_⟩, ?_, ?_⟩
      · intro y hy
        cases List.mem_cons.mp hy with
        | inl hy => exact hy ▸ hx
        | inr hy => exact hxs y hy
      · show _ = (x :: xs).flatMap bytes ++ rest
        rw [List.flatMap_cons, List.append_assoc, hmid]
      · show bs = (x :: xs).mapIdx _
        rw [hshift, ← hbs]
    · rintro ⟨xs, ⟨hlen, hxs⟩, rfl, rfl⟩
      cases xs with
      | nil => cases hlen
      | cons x xs =>
        refine ⟨value start x, xs.flatMap bytes ++ rest, ?_, bind_ok_iff.mpr
          ⟨xs.mapIdx fun i => value (start + 1 + i), rest, ?_, ?_⟩⟩
        · refine (h start _ _ _).mpr ⟨x, hxs x List.mem_cons_self, ?_, rfl⟩
          show (x :: xs).flatMap bytes ++ rest = _
          rw [List.flatMap_cons, List.append_assoc]
        · refine (ih (start + 1) _ _ _).mpr ⟨xs, ⟨Nat.succ.inj hlen, ?_⟩, rfl, rfl⟩
          exact fun y hy => hxs y (List.mem_cons_of_mem x hy)
        · show _ = Except.ok ((x :: xs).mapIdx _, rest)
          rw [hshift]
          rfl

theorem accepts_mapM_range {f : Nat → Reader ε β} {value : Nat → ρ → β}
    (h : ∀ i, Accepts (f i) valid bytes (value i)) (n : Nat) :
    Accepts ((List.range n).mapM f) (fun xs : List ρ => xs.length = n ∧ ∀ x ∈ xs, valid x)
      (fun xs => xs.flatMap bytes) (fun xs => xs.mapIdx value) := by
  have hread := accepts_mapM_range' h 0 n
  simpa only [List.range_eq_range', Nat.zero_add] using hread

/-- A counted loop fails in one of its rounds, after records that it has accepted. -/
theorem mapM_range'_error_iff {f : Nat → Reader ε β} {value : Nat → ρ → β}
    (h : ∀ i, Accepts (f i) valid bytes (value i)) (start n : Nat) {input : List UInt8} {e : ε} :
    ((List.range' start n).mapM f) input = .error e ↔
      ∃ (xs : List ρ) (mid : List UInt8), xs.length < n ∧ (∀ x ∈ xs, valid x) ∧
        input = xs.flatMap bytes ++ mid ∧ f (start + xs.length) mid = .error e := by
  induction n generalizing start input with
  | zero =>
    constructor
    · intro hread
      cases hread
    · rintro ⟨xs, mid, hlt, -⟩
      exact absurd hlt (Nat.not_lt_zero _)
  | succ n ih =>
    rw [List.range'_succ, List.mapM_cons, bind_error_iff]
    constructor
    · rintro (hfirst | ⟨b, mid, hfirst, hread⟩)
      · exact ⟨[], input, Nat.succ_pos n, nofun, rfl, hfirst⟩
      · obtain ⟨x, hx, rfl, rfl⟩ := (h start input b mid).mp hfirst
        rcases bind_error_iff.mp hread with hrest | ⟨bs', mid', -, hpure⟩
        · obtain ⟨xs, mid', hlt, hxs, rfl, hfail⟩ := (ih (start + 1)).mp hrest
          refine ⟨x :: xs, mid', Nat.succ_lt_succ hlt, ?_, ?_, ?_⟩
          · intro y hy
            cases List.mem_cons.mp hy with
            | inl hy => exact hy ▸ hx
            | inr hy => exact hxs y hy
          · rw [List.flatMap_cons, List.append_assoc]
          · rw [List.length_cons, Nat.add_comm xs.length 1, ← Nat.add_assoc]
            exact hfail
        · cases hpure
    · rintro ⟨xs, mid, hlt, hxs, rfl, hfail⟩
      cases xs with
      | nil => exact Or.inl hfail
      | cons x xs =>
        refine Or.inr ⟨value start x, xs.flatMap bytes ++ mid, ?_, bind_error_iff.mpr (Or.inl ?_)⟩
        · refine (h start _ _ _).mpr ⟨x, hxs x List.mem_cons_self, ?_, rfl⟩
          rw [List.flatMap_cons, List.append_assoc]
        · refine (ih (start + 1)).mpr ⟨xs, mid, Nat.lt_of_succ_lt_succ hlt, ?_, rfl, ?_⟩
          · exact fun y hy => hxs y (List.mem_cons_of_mem x hy)
          · rw [List.length_cons, Nat.add_comm xs.length 1, ← Nat.add_assoc] at hfail
            exact hfail

theorem mapM_range_error_iff {f : Nat → Reader ε β} {value : Nat → ρ → β}
    (h : ∀ i, Accepts (f i) valid bytes (value i)) (n : Nat) {input : List UInt8} {e : ε} :
    ((List.range n).mapM f) input = .error e ↔
      ∃ (xs : List ρ) (mid : List UInt8), xs.length < n ∧ (∀ x ∈ xs, valid x) ∧
        input = xs.flatMap bytes ++ mid ∧ f xs.length mid = .error e := by
  rw [List.range_eq_range', mapM_range'_error_iff h 0 n]
  simp only [Nat.zero_add]

/-! ## Errors that do not occur -/

theorem pure_ne_error {e : ε} (a : α) (input : List UInt8) :
    (Pure.pure a : Reader ε α) input ≠ .error e := by
  intro h
  cases h

theorem bind_ne_error {e : ε} {r : Reader ε α} {f : α → Reader ε β}
    (h : ∀ input, r input ≠ .error e) (h' : ∀ a input, f a input ≠ .error e) (input : List UInt8) :
    (r >>= f) input ≠ .error e := by
  rw [ne_eq, bind_error_iff]
  rintro (hfail | ⟨a, mid, -, hfail⟩)
  · exact h input hfail
  · exact h' a mid hfail

theorem readExact_ne_error {eof e : ε} (hne : eof ≠ e) (n : Nat) (input : List UInt8) :
    readExact eof n input ≠ .error e := by
  unfold readExact
  split
  · intro h
    injection h with h
    exact hne h
  · exact nofun

theorem map_ne_error {e : ε} {r : Reader ε α} (f : α → β) (h : ∀ input, r input ≠ .error e)
    (input : List UInt8) : (f <$> r) input ≠ .error e := by
  rw [map_eq_pure_bind]
  exact bind_ne_error h (fun a => pure_ne_error (f a)) input

theorem mapM_ne_error {e : ε} {f : α → Reader ε β} (h : ∀ a input, f a input ≠ .error e)
    (l : List α) (input : List UInt8) : (l.mapM f) input ≠ .error e := by
  induction l generalizing input with
  | nil => exact pure_ne_error [] input
  | cons a l ih =>
    rw [List.mapM_cons]
    exact bind_ne_error (h a) (fun b => bind_ne_error ih fun bs => pure_ne_error (b :: bs)) input

/-! ## Progress -/

/-- A reader gives back at most what it was given. -/
def Reader.Shrinks (r : Reader ε α) : Prop :=
  ∀ input a rest, r input = .ok (a, rest) → rest.length ≤ input.length

theorem Reader.Shrinks.pure (a : α) : Reader.Shrinks (Pure.pure a : Reader ε α) := by
  intro input b rest h
  injection h with h
  injection h with _ h
  exact Nat.le_of_eq (congrArg List.length h.symm)

theorem Reader.Shrinks.fail (e : ε) : Reader.Shrinks (Reader.fail e : Reader ε α) := nofun

theorem Reader.Shrinks.bind {r : Reader ε α} {f : α → Reader ε β} (h : r.Shrinks)
    (h' : ∀ a, (f a).Shrinks) : Reader.Shrinks (r >>= f) := by
  intro input b rest hread
  have hread : (r input >>= fun s => f s.1 s.2) = .ok (b, rest) := hread
  cases hr : r input with
  | error e =>
    rw [hr] at hread
    cases hread
  | ok s =>
    rw [hr] at hread
    exact Nat.le_trans (h' s.1 s.2 b rest hread) (h input s.1 s.2 hr)

theorem Reader.Shrinks.map {r : Reader ε α} (f : α → β) (h : r.Shrinks) :
    Reader.Shrinks (f <$> r) := by
  rw [map_eq_pure_bind]
  exact h.bind fun a => Reader.Shrinks.pure (f a)

theorem shrinks_readExact (eof : ε) (n : Nat) : Reader.Shrinks (readExact eof n) := by
  intro input a rest h
  rw [readExact] at h
  split at h
  · cases h
  · injection h with h
    injection h with _ h
    rw [← h, List.length_drop]
    exact Nat.sub_le _ _

theorem shrinks_readLe (eof : ε) (n : Nat) : Reader.Shrinks (readLe eof n) :=
  (shrinks_readExact eof n).map _

theorem shrinks_mapM {f : α → Reader ε β} (h : ∀ a, (f a).Shrinks) (l : List α) :
    Reader.Shrinks (l.mapM f) := by
  induction l with
  | nil => exact Reader.Shrinks.pure []
  | cons a l ih =>
    rw [List.mapM_cons]
    exact (h a).bind fun b => ih.bind fun bs => Reader.Shrinks.pure (b :: bs)

end TcgRs.Library
