import TcgRs.Analysis.Serialization

/-!
# Reading untrusted input

What `deserialize` makes of an arbitrary byte string.  The records of the format are described as
the fields that are stored, before any of them is looked up; a file that is read consists of such
records, and the one panic is that of a name index beyond the string table.
-/

set_option autoImplicit false

namespace TcgRs.Analysis.UntrustedInput

open TcgRs.Model.Ir (IrType TempKind Opcode)
open TcgRs.Model.Serialize TcgRs.Library

/-! ## Fields -/

theorem accepts_readU8 : Accepts readU8 (fun _ : UInt8 => True) writeU8 id := by
  intro input v rest
  rw [readU8, (accepts_readLe IoError.unexpectedEof 1).map UInt8.ofNat input v rest]
  constructor
  · rintro ⟨n, hn, hinput, rfl⟩
    have hn : (UInt8.ofNat n).toNat = n := by
      rw [UInt8.toNat_ofNat']
      exact Nat.mod_eq_of_lt hn
    refine ⟨UInt8.ofNat n, trivial, ?_, rfl⟩
    rw [writeU8, hn]
    exact hinput
  · rintro ⟨v, -, hinput, rfl⟩
    exact ⟨v.toNat, v.toNat_lt, hinput, UInt8.ofNat_toNat.symm⟩

theorem accepts_readU16 : Accepts readU16 (fun n => n < 65536) writeU16 id := accepts_readLe _ 2

theorem accepts_readU32 : Accepts readU32 (fun _ : UInt32 => True) writeU32 id := by
  intro input v rest
  rw [readU32, (accepts_readLe IoError.unexpectedEof 4).map UInt32.ofNat input v rest]
  constructor
  · rintro ⟨n, hn, hinput, rfl⟩
    have hn : (UInt32.ofNat n).toNat = n := by
      rw [UInt32.toNat_ofNat']
      exact Nat.mod_eq_of_lt hn
    refine ⟨UInt32.ofNat n, trivial, ?_, rfl⟩
    rw [writeU32, hn]
    exact hinput
  · rintro ⟨v, -, hinput, rfl⟩
    exact ⟨v.toNat, v.toNat_lt, hinput, UInt32.ofNat_toNat.symm⟩

theorem accepts_readU64 : Accepts readU64 (fun _ : BitVec 64 => True) writeU64 id := by
  intro input v rest
  rw [readU64, (accepts_readLe IoError.unexpectedEof 8).map (BitVec.ofNat 64) input v rest]
  constructor
  · rintro ⟨n, hn, hinput, rfl⟩
    have hn : (BitVec.ofNat 64 n).toNat = n := by
      rw [BitVec.toNat_ofNat]
      exact Nat.mod_eq_of_lt hn
    refine ⟨BitVec.ofNat 64 n, trivial, ?_, rfl⟩
    rw [writeU64, hn]
    exact hinput
  · rintro ⟨v, -, hinput, rfl⟩
    refine ⟨v.toNat, v.isLt, hinput, ?_⟩
    show v = BitVec.ofNat 64 v.toNat
    rw [BitVec.ofNat_toNat, BitVec.setWidth_eq]

theorem readU8_ok_iff {input rest : List UInt8} {v : UInt8} :
    readU8 input = .ok (v, rest) ↔ input = writeU8 v ++ rest :=
  (accepts_readU8 input v rest).trans (by simp only [id, true_and, exists_eq_right'])

theorem readU16_ok_iff {input rest : List UInt8} {v : Nat} :
    readU16 input = .ok (v, rest) ↔ v < 65536 ∧ input = writeU16 v ++ rest :=
  (accepts_readU16 input v rest).trans (by simp only [id, ← and_assoc, exists_eq_right'])

theorem readU32_ok_iff {input rest : List UInt8} {v : UInt32} :
    readU32 input = .ok (v, rest) ↔ input = writeU32 v ++ rest :=
  (accepts_readU32 input v rest).trans (by simp only [id, true_and, exists_eq_right'])

theorem readU64_ok_iff {input rest : List UInt8} {v : BitVec 64} :
    readU64 input = .ok (v, rest) ↔ input = writeU64 v ++ rest :=
  (accepts_readU64 input v rest).trans (by simp only [id, true_and, exists_eq_right'])

theorem readI64_ok_iff {input rest : List UInt8} {v : BitVec 64} :
    readI64 input = .ok (v, rest) ↔ input = writeI64 v ++ rest := readU64_ok_iff

theorem readBytes_ok_iff {n : Nat} {input rest bs : List UInt8} :
    readBytes n input = .ok (bs, rest) ↔ bs.length = n ∧ input = bs ++ rest :=
  (accepts_readExact IoError.unexpectedEof n input bs rest).trans
    (by simp only [id, ← and_assoc, exists_eq_right'])

theorem pure_ok_iff {α : Type} {input rest : List UInt8} {a b : α} :
    (pure a : Read α) input = .ok (b, rest) ↔ input = rest ∧ b = a := by
  constructor
  · intro h
    injection h with h
    injection h with ha hrest
    exact ⟨hrest, ha.symm⟩
  · rintro ⟨rfl, rfl⟩
    rfl

/-! ## Enumerations -/

/-- A byte that names one of `n` values. -/
theorem enum_ok_iff {α : Type} {n : Nat} {value a : α} {v : Nat} {msg : String}
    {input rest : List UInt8} :
    (if v < n then pure value else err msg : Read α) input = .ok (a, rest) ↔
      v < n ∧ input = rest ∧ a = value := by
  by_cases hv : v < n
  · rw [if_pos hv, pure_ok_iff]
    simp only [hv, true_and]
  · rw [if_neg hv]
    constructor
    · nofun
    · exact fun h => absurd h.1 hv

theorem toNat_ne {v w : UInt8} (h : v ≠ w) : v.toNat ≠ w.toNat :=
  fun heq => h (UInt8.toNat_inj.mp heq)

theorem u8ToKind_eq (v : UInt8) :
    u8ToKind v = if v.toNat < 5 then pure (TempKind.ofNat v.toNat) else err "invalid TempKind" := by
  unfold u8ToKind
  split
  case h_6 h0 h1 h2 h3 h4 =>
    have hge : ¬ v.toNat < 5 := by
      have h0 : v.toNat ≠ 0 := toNat_ne h0
      have h1 : v.toNat ≠ 1 := toNat_ne h1
      have h2 : v.toNat ≠ 2 := toNat_ne h2
      have h3 : v.toNat ≠ 3 := toNat_ne h3
      have h4 : v.toNat ≠ 4 := toNat_ne h4
      omega
    rw [if_neg hge]
  all_goals rfl

theorem u8ToType_eq (v : UInt8) :
    u8ToType v = if v.toNat < 6 then pure (IrType.ofNat v.toNat) else err "invalid Type" := by
  unfold u8ToType
  split
  case h_7 h0 h1 h2 h3 h4 h5 =>
    have hge : ¬ v.toNat < 6 := by
      have h0 : v.toNat ≠ 0 := toNat_ne h0
      have h1 : v.toNat ≠ 1 := toNat_ne h1
      have h2 : v.toNat ≠ 2 := toNat_ne h2
      have h3 : v.toNat ≠ 3 := toNat_ne h3
      have h4 : v.toNat ≠ 4 := toNat_ne h4
      have h5 : v.toNat ≠ 5 := toNat_ne h5
      omega
    rw [if_neg hge]
  all_goals rfl

theorem u8ToKind_ok_iff {v : UInt8} {input rest : List UInt8} {kind : TempKind} :
    u8ToKind v input = .ok (kind, rest) ↔
      v.toNat < 5 ∧ input = rest ∧ kind = TempKind.ofNat v.toNat := by
  rw [u8ToKind_eq, enum_ok_iff]

theorem u8ToType_ok_iff {v : UInt8} {input rest : List UInt8} {ty : IrType} :
    u8ToType v input = .ok (ty, rest) ↔
      v.toNat < 6 ∧ input = rest ∧ ty = IrType.ofNat v.toNat := by
  rw [u8ToType_eq, enum_ok_iff]

theorem u8ToOpcode_ok_iff {v : UInt8} {input rest : List UInt8} {opc : Opcode} :
    u8ToOpcode v input = .ok (opc, rest) ↔
      v.toNat < opcodeCount ∧ input = rest ∧ opc = Opcode.ofNat v.toNat := by
  rw [u8ToOpcode, enum_ok_iff]

/-! ## Never a panic -/

theorem err_ne_panic {α : Type} (msg : String) (input : List UInt8) :
    (err msg : Read α) input ≠ .error .panic := by
  intro h
  injection h with h
  cases h

theorem readBytes_ne_panic (n : Nat) (input : List UInt8) :
    readBytes n input ≠ .error .panic := readExact_ne_error (by decide) n input

theorem readLe_ne_panic (n : Nat) (input : List UInt8) :
    readLe IoError.unexpectedEof n input ≠ .error .panic :=
  map_ne_error _ (readExact_ne_error (by decide) n) input

theorem readU8_ne_panic (input : List UInt8) : readU8 input ≠ .error .panic :=
  map_ne_error _ (readLe_ne_panic 1) input

theorem readU16_ne_panic (input : List UInt8) : readU16 input ≠ .error .panic :=
  readLe_ne_panic 2 input

theorem readU32_ne_panic (input : List UInt8) : readU32 input ≠ .error .panic :=
  map_ne_error _ (readLe_ne_panic 4) input

theorem readU64_ne_panic (input : List UInt8) : readU64 input ≠ .error .panic :=
  map_ne_error _ (readLe_ne_panic 8) input

theorem readI64_ne_panic (input : List UInt8) : readI64 input ≠ .error .panic :=
  readU64_ne_panic input

theorem enum_ne_panic {α : Type} (n v : Nat) (value : α) (msg : String) (input : List UInt8) :
    (if v < n then pure value else err msg : Read α) input ≠ .error .panic := by
  split
  · exact pure_ne_error value input
  · exact err_ne_panic msg input

theorem u8ToKind_ne_panic (v : UInt8) (input : List UInt8) : u8ToKind v input ≠ .error .panic := by
  rw [u8ToKind_eq]
  exact enum_ne_panic _ _ _ _ input

theorem u8ToType_ne_panic (v : UInt8) (input : List UInt8) : u8ToType v input ≠ .error .panic := by
  rw [u8ToType_eq]
  exact enum_ne_panic _ _ _ _ input

theorem u8ToOpcode_ne_panic (v : UInt8) (input : List UInt8) :
    u8ToOpcode v input ≠ .error .panic := enum_ne_panic _ _ _ _ input

/-! ## Temps -/

/-- The fields of a temp as they are stored. -/
structure RawTemp where
  kind : UInt8
  ty : UInt8
  baseType : UInt8
  reg : UInt8
  val : BitVec 64
  memBase : UInt32
  memOffset : BitVec 64
  nameIdx : UInt32

namespace RawTemp

def bytes (t : RawTemp) : List UInt8 :=
  writeU8 t.kind ++ writeU8 t.ty ++ writeU8 t.baseType ++ writeU8 t.reg ++ writeU64 t.val ++
    writeU32 t.memBase ++ writeI64 t.memOffset ++ writeU32 t.nameIdx

/-- The enumerations are in range. -/
def Enums (t : RawTemp) : Prop := t.kind.toNat < 5 ∧ t.ty.toNat < 6 ∧ t.baseType.toNat < 6

/-- The name is one of the first `n` of the string table, or none. -/
def Named (n : Nat) (t : RawTemp) : Prop := t.nameIdx = noIndex ∨ t.nameIdx.toNat < n

/-- The base is one of the first `n` temps, or none. -/
def Based (n : Nat) (t : RawTemp) : Prop := t.memBase = noIndex ∨ t.memBase.toNat < n

/-- The temp that is read. -/
def value (strtab : List String) (i : Nat) (t : RawTemp) : Temp where
  idx := UInt32.ofNat i
  ty := IrType.ofNat t.ty.toNat
  baseType := IrType.ofNat t.baseType.toNat
  kind := TempKind.ofNat t.kind.toNat
  valType := initialVal (TempKind.ofNat t.kind.toNat)
  reg := if t.reg = noReg then none else some t.reg
  memCoherent := decide (TempKind.ofNat t.kind.toNat = .global)
  memAllocated := decide (TempKind.ofNat t.kind.toNat = .global)
  val := t.val
  memBase := if t.memBase = noIndex then none else some t.memBase
  memOffset := t.memOffset
  name := if t.nameIdx = noIndex then none else strtab[t.nameIdx.toNat]?

end RawTemp

theorem lookupName_ok_iff {strtab : List String} {idx : UInt32} {input rest : List UInt8}
    {name : Option String} :
    lookupName strtab idx input = .ok (name, rest) ↔ (idx = noIndex ∨ idx.toNat < strtab.length) ∧
      input = rest ∧ name = if idx = noIndex then none else strtab[idx.toNat]? := by
  unfold lookupName
  by_cases hnone : idx = noIndex
  · simp only [hnone, if_true, true_or, true_and]
    exact pure_ok_iff
  · simp only [hnone, if_false, false_or]
    cases hget : strtab[idx.toNat]? with
    | none =>
      have hge : ¬ idx.toNat < strtab.length := Nat.not_lt.mpr (List.getElem?_eq_none_iff.mp hget)
      constructor
      · nofun
      · exact fun h => absurd h.1 hge
    | some found =>
      have hlt : idx.toNat < strtab.length := (List.getElem?_eq_some_iff.mp hget).1
      simp only [hlt, true_and]
      exact pure_ok_iff

theorem lookupName_panic_iff {strtab : List String} {idx : UInt32} {input : List UInt8} :
    lookupName strtab idx input = .error .panic ↔
      ¬ (idx = noIndex ∨ idx.toNat < strtab.length) := by
  unfold lookupName
  by_cases hnone : idx = noIndex
  · simp only [hnone, if_true, true_or, not_true, iff_false]
    exact pure_ne_error none input
  · simp only [hnone, if_false, false_or]
    cases hget : strtab[idx.toNat]? with
    | none =>
      have hge : ¬ idx.toNat < strtab.length := Nat.not_lt.mpr (List.getElem?_eq_none_iff.mp hget)
      exact ⟨fun _ => hge, fun _ => rfl⟩
    | some found =>
      have hlt : idx.toNat < strtab.length := (List.getElem?_eq_some_iff.mp hget).1
      simp only [hlt, not_true, iff_false]
      exact pure_ne_error (some found) input

theorem accepts_readTemp (strtab : List String) (i : Nat) :
    Accepts (readTemp strtab i) (fun t : RawTemp => t.Enums ∧ t.Named strtab.length) RawTemp.bytes
      (RawTemp.value strtab i) := by
  intro input t rest
  simp only [readTemp, bind_ok_iff, readU8_ok_iff, readU32_ok_iff, readU64_ok_iff, readI64_ok_iff,
    u8ToKind_ok_iff, u8ToType_ok_iff, lookupName_ok_iff, pure_ok_iff]
  constructor
  · rintro ⟨kind, _, rfl, _, _, ⟨hkind, rfl, rfl⟩, ty, _, rfl, _, _, ⟨hty, rfl, rfl⟩, baseType, _,
      rfl, _, _, ⟨hbaseType, rfl, rfl⟩, reg, _, rfl, val, _, rfl, memBase, _, rfl, memOffset, _,
      rfl, nameIdx, _, rfl, _, _, ⟨hname, rfl, rfl⟩, rfl, rfl⟩
    refine ⟨⟨kind, ty, baseType, reg, val, memBase, memOffset, nameIdx⟩,
      ⟨⟨hkind, hty, hbaseType⟩, hname⟩, ?_, rfl⟩
    simp only [RawTemp.bytes, List.append_assoc]
  · rintro ⟨raw, ⟨⟨hkind, hty, hbaseType⟩, hname⟩, rfl, rfl⟩
    simp only [RawTemp.bytes, List.append_assoc]
    exact ⟨raw.kind, _, rfl, _, _, ⟨hkind, rfl, rfl⟩, raw.ty, _, rfl, _, _, ⟨hty, rfl, rfl⟩,
      raw.baseType, _, rfl, _, _, ⟨hbaseType, rfl, rfl⟩, raw.reg, _, rfl, raw.val, _, rfl,
      raw.memBase, _, rfl, raw.memOffset, _, rfl, raw.nameIdx, _, rfl, _, _, ⟨hname, rfl, rfl⟩,
      rfl, rfl⟩

theorem readTemp_panic_iff {strtab : List String} {i : Nat} {input : List UInt8} :
    readTemp strtab i input = .error .panic ↔
      ∃ (t : RawTemp) (rest : List UInt8), t.Enums ∧ ¬ t.Named strtab.length ∧
        input = t.bytes ++ rest := by
  simp only [readTemp, bind_error_iff, readU8_ok_iff, readU32_ok_iff, readU64_ok_iff,
    readI64_ok_iff, u8ToKind_ok_iff, u8ToType_ok_iff, lookupName_panic_iff, readU8_ne_panic,
    readU32_ne_panic, readU64_ne_panic, readI64_ne_panic, u8ToKind_ne_panic, u8ToType_ne_panic,
    pure_ne_error, and_false, exists_false, false_or, or_false]
  constructor
  · rintro ⟨kind, _, rfl, _, _, ⟨hkind, rfl, rfl⟩, ty, _, rfl, _, _, ⟨hty, rfl, rfl⟩, baseType, _,
      rfl, _, _, ⟨hbaseType, rfl, rfl⟩, reg, _, rfl, val, _, rfl, memBase, _, rfl, memOffset, _,
      rfl, nameIdx, rest, rfl, hname⟩
    refine ⟨⟨kind, ty, baseType, reg, val, memBase, memOffset, nameIdx⟩, rest,
      ⟨hkind, hty, hbaseType⟩, hname, ?_⟩
    simp only [RawTemp.bytes, List.append_assoc]
  · rintro ⟨raw, rest, ⟨hkind, hty, hbaseType⟩, hname, rfl⟩
    simp only [RawTemp.bytes, List.append_assoc]
    exact ⟨raw.kind, _, rfl, _, _, ⟨hkind, rfl, rfl⟩, raw.ty, _, rfl, _, _, ⟨hty, rfl, rfl⟩,
      raw.baseType, _, rfl, _, _, ⟨hbaseType, rfl, rfl⟩, raw.reg, _, rfl, raw.val, _, rfl,
      raw.memBase, _, rfl, raw.memOffset, _, rfl, raw.nameIdx, _, rfl, hname⟩

/-! ## Ops -/

/-- The fields of an op as they are stored.  The count may be larger than what is stored. -/
structure RawOp where
  opc : UInt8
  ty : UInt8
  param1 : UInt8
  param2 : UInt8
  nargs : UInt8
  pad : List UInt8
  args : List UInt32

namespace RawOp

def bytes (op : RawOp) : List UInt8 :=
  writeU8 op.opc ++ writeU8 op.ty ++ writeU8 op.param1 ++ writeU8 op.param2 ++ writeU8 op.nargs ++
    op.pad ++ op.args.flatMap writeU32

/-- The enumerations are in range and the lengths are what the reader takes. -/
def Valid (op : RawOp) : Prop :=
  op.opc.toNat < opcodeCount ∧ op.ty.toNat < 6 ∧ op.pad.length = 3 ∧
    op.args.length = min op.nargs.toNat maxOpArgs

/-- The op that is read. -/
def value (i : Nat) (op : RawOp) : Op where
  idx := UInt32.ofNat i
  opc := Opcode.ofNat op.opc.toNat
  opType := IrType.ofNat op.ty.toNat
  param1 := op.param1
  param2 := op.param2
  args := Vector.ofFn fun k => op.args.getD k 0
  nargs := op.nargs

end RawOp

theorem mapIdx_const {α β : Type} (f : α → β) (l : List α) : (l.mapIdx fun _ => f) = l.map f := by
  rw [List.mapIdx_eq_iff]
  intro i
  rw [List.getElem?_map]

theorem readArgs_ok_iff {n : Nat} {args : List UInt32} {input rest : List UInt8} :
    ((List.range n).mapM fun _ => readU32) input = .ok (args, rest) ↔
      args.length = n ∧ input = args.flatMap writeU32 ++ rest := by
  rw [accepts_mapM_range (fun _ => accepts_readU32) n input args rest]
  simp only [implies_true, and_true, mapIdx_const, List.map_id, ← and_assoc, exists_eq_right']

theorem accepts_readOp (i : Nat) :
    Accepts (readOp i) RawOp.Valid RawOp.bytes (RawOp.value i) := by
  intro input op rest
  simp only [readOp, bind_ok_iff, readU8_ok_iff, readBytes_ok_iff, u8ToOpcode_ok_iff,
    u8ToType_ok_iff, readArgs_ok_iff, pure_ok_iff]
  constructor
  · rintro ⟨opc, _, rfl, _, _, ⟨hopc, rfl, rfl⟩, ty, _, rfl, _, _, ⟨hty, rfl, rfl⟩, param1, _, rfl,
      param2, _, rfl, nargs, _, rfl, pad, _, ⟨hpad, rfl⟩, args, _, ⟨hargs, rfl⟩, rfl, rfl⟩
    refine ⟨⟨opc, ty, param1, param2, nargs, pad, args⟩, ⟨hopc, hty, hpad, hargs⟩, ?_, rfl⟩
    simp only [RawOp.bytes, List.append_assoc]
  · rintro ⟨raw, ⟨hopc, hty, hpad, hargs⟩, rfl, rfl⟩
    simp only [RawOp.bytes, List.append_assoc]
    exact ⟨raw.opc, _, rfl, _, _, ⟨hopc, rfl, rfl⟩, raw.ty, _, rfl, _, _, ⟨hty, rfl, rfl⟩,
      raw.param1, _, rfl, raw.param2, _, rfl, raw.nargs, _, rfl, raw.pad, _, ⟨hpad, rfl⟩,
      raw.args, _, ⟨hargs, rfl⟩, rfl, rfl⟩

theorem readOp_ne_panic (i : Nat) (input : List UInt8) : readOp i input ≠ .error .panic := by
  have hargs : ∀ (n : Nat) (input : List UInt8),
      ((List.range n).mapM fun _ => readU32) input ≠ .error .panic :=
    fun n => mapM_ne_error (fun _ => readU32_ne_panic) _
  simp only [readOp, ne_eq, bind_error_iff, readU8_ne_panic, readBytes_ne_panic,
    u8ToOpcode_ne_panic, u8ToType_ne_panic, hargs, pure_ne_error, and_false, exists_false, or_self,
    not_false_eq_true]

/-! ## Counted tables -/

/-- The number of entries comes before the entries. -/
def countedBytes {ρ : Type} (bytes : ρ → List UInt8) (xs : List ρ) : List UInt8 :=
  writeU32 (UInt32.ofNat xs.length) ++ xs.flatMap bytes

theorem counted_ok_iff {ρ α : Type} {f : Nat → Read α} {valid : ρ → Prop} {bytes : ρ → List UInt8}
    {value : Nat → ρ → α} (h : ∀ i, Accepts (f i) valid bytes (value i)) {β : Type}
    {k : List α → Read β} {input rest : List UInt8} {b : β} :
    (readU32 >>= fun count => (List.range count.toNat).mapM f >>= k) input = .ok (b, rest) ↔
      ∃ (xs : List ρ) (mid : List UInt8), xs.length < 2 ^ 32 ∧ (∀ x ∈ xs, valid x) ∧
        input = countedBytes bytes xs ++ mid ∧ k (xs.mapIdx value) mid = .ok (b, rest) := by
  simp only [bind_ok_iff, readU32_ok_iff, accepts_mapM_range h _ _ _ _]
  constructor
  · rintro ⟨count, _, rfl, _, mid, ⟨xs, ⟨hlen, hxs⟩, rfl, rfl⟩, hk⟩
    refine ⟨xs, mid, hlen ▸ count.toNat_lt, hxs, ?_, hk⟩
    rw [countedBytes, hlen, UInt32.ofNat_toNat, List.append_assoc]
  · rintro ⟨xs, mid, hlt, hxs, rfl, hk⟩
    have hlen : (UInt32.ofNat xs.length).toNat = xs.length := by
      rw [UInt32.toNat_ofNat', Nat.mod_eq_of_lt hlt]
    refine ⟨UInt32.ofNat xs.length, _, ?_, _, mid, ⟨xs, ⟨hlen.symm, hxs⟩, rfl, rfl⟩, hk⟩
    rw [countedBytes, List.append_assoc]

/-- A counted table panics in one of its entries, or what follows it does. -/
theorem counted_panic_iff {ρ α : Type} {f : Nat → Read α} {valid : ρ → Prop}
    {bytes : ρ → List UInt8} {value : Nat → ρ → α} (h : ∀ i, Accepts (f i) valid bytes (value i))
    {β : Type} {k : List α → Read β} {input : List UInt8} :
    (readU32 >>= fun count => (List.range count.toNat).mapM f >>= k) input = .error .panic ↔
      (∃ (count : UInt32) (xs : List ρ) (mid : List UInt8), xs.length < count.toNat ∧
        (∀ x ∈ xs, valid x) ∧ input = writeU32 count ++ xs.flatMap bytes ++ mid ∧
        f xs.length mid = .error .panic) ∨
      ∃ (xs : List ρ) (mid : List UInt8), xs.length < 2 ^ 32 ∧ (∀ x ∈ xs, valid x) ∧
        input = countedBytes bytes xs ++ mid ∧ k (xs.mapIdx value) mid = .error .panic := by
  simp only [bind_error_iff, readU32_ok_iff, readU32_ne_panic, false_or, mapM_range_error_iff h,
    accepts_mapM_range h _ _ _ _]
  constructor
  · rintro ⟨count, _, rfl, ⟨xs, mid, hlt, hxs, rfl, hf⟩ | ⟨_, mid, ⟨xs, ⟨hlen, hxs⟩, rfl, rfl⟩, hk⟩⟩
    · exact Or.inl ⟨count, xs, mid, hlt, hxs, (List.append_assoc _ _ _).symm, hf⟩
    · refine Or.inr ⟨xs, mid, hlen ▸ count.toNat_lt, hxs, ?_, hk⟩
      rw [countedBytes, hlen, UInt32.ofNat_toNat, List.append_assoc]
  · rintro (⟨count, xs, mid, hlt, hxs, rfl, hf⟩ | ⟨xs, mid, hlt, hxs, rfl, hk⟩)
    · exact ⟨count, _, List.append_assoc _ _ _, Or.inl ⟨xs, mid, hlt, hxs, rfl, hf⟩⟩
    · have hlen : (UInt32.ofNat xs.length).toNat = xs.length := by
        rw [UInt32.toNat_ofNat', Nat.mod_eq_of_lt hlt]
      refine ⟨UInt32.ofNat xs.length, _, ?_, Or.inr ⟨_, mid, ⟨xs, ⟨hlen.symm, hxs⟩, rfl, rfl⟩, hk⟩⟩
      rw [countedBytes, List.append_assoc]

/-! ## Strings -/

/-- A string as it is stored: valid UTF-8 of a length that fits in its field. -/
def ValidString (bs : List UInt8) : Prop :=
  bs.length < 65536 ∧ (String.fromUTF8? ⟨bs.toArray⟩).isSome

def stringBytes (bs : List UInt8) : List UInt8 := writeU16 bs.length ++ bs

/-- The string that is read. -/
def stringValue (bs : List UInt8) : String := (String.fromUTF8? ⟨bs.toArray⟩).getD ""

theorem accepts_readString : Accepts readString ValidString stringBytes stringValue := by
  intro input s rest
  simp only [readString, bind_ok_iff, readU16_ok_iff, readBytes_ok_iff]
  constructor
  · rintro ⟨len, _, ⟨hlen, rfl⟩, bs, mid, ⟨rfl, rfl⟩, h⟩
    cases hs : String.fromUTF8? ⟨bs.toArray⟩ with
    | none =>
      rw [hs] at h
      cases h
    | some decoded =>
      rw [hs] at h
      obtain ⟨rfl, rfl⟩ := pure_ok_iff.mp h
      refine ⟨bs, ⟨hlen, by rw [hs]; rfl⟩, (List.append_assoc _ _ _).symm, ?_⟩
      rw [stringValue, hs]
      rfl
  · rintro ⟨bs, ⟨hlen, hutf8⟩, rfl, rfl⟩
    obtain ⟨decoded, hs⟩ := Option.isSome_iff_exists.mp hutf8
    refine ⟨bs.length, _, ⟨hlen, List.append_assoc _ _ _⟩, bs, rest, ⟨rfl, rfl⟩, ?_⟩
    rw [stringValue, hs]
    rfl

theorem readString_ne_panic (input : List UInt8) : readString input ≠ .error .panic := by
  refine bind_ne_error readU16_ne_panic (fun len => ?_) input
  refine bind_ne_error (readBytes_ne_panic len) (fun bs input => ?_)
  cases String.fromUTF8? ⟨bs.toArray⟩ with
  | none => exact err_ne_panic _ input
  | some decoded => exact pure_ne_error decoded input

/-! ## Blocks -/

/-- The tables of a block as they are stored. -/
structure RawBlock where
  strings : List (List UInt8)
  temps : List RawTemp
  ops : List RawOp

namespace RawBlock

def bytes (b : RawBlock) : List UInt8 :=
  countedBytes stringBytes b.strings ++ countedBytes RawTemp.bytes b.temps ++
    countedBytes RawOp.bytes b.ops

/-- Every count fits in its field and every entry is one that its reader takes. -/
structure Valid (b : RawBlock) : Prop where
  countStrings : b.strings.length < 2 ^ 32
  strings : ∀ s ∈ b.strings, ValidString s
  countTemps : b.temps.length < 2 ^ 32
  temps : ∀ t ∈ b.temps, t.Enums ∧ t.Named b.strings.length
  countOps : b.ops.length < 2 ^ 32
  ops : ∀ op ∈ b.ops, op.Valid

/-- The context that is read. -/
def value (nbGlobals : UInt32) (b : RawBlock) : Context where
  temps := b.temps.mapIdx (RawTemp.value (b.strings.map stringValue))
  ops := b.ops.mapIdx RawOp.value
  labels := rebuildLabels (b.ops.mapIdx RawOp.value)
  nbGlobals := nbGlobals

end RawBlock

theorem deserializeOneTb_eq (nbGlobals : UInt32) : deserializeOneTb nbGlobals =
    readU32 >>= fun count => ((List.range count.toNat).mapM fun _ => readString) >>= fun strtab =>
      readU32 >>= fun count => (List.range count.toNat).mapM (readTemp strtab) >>= fun temps =>
      readU32 >>= fun count => (List.range count.toNat).mapM readOp >>= fun ops =>
      pure ⟨temps, ops, rebuildLabels ops, nbGlobals⟩ := by
  unfold deserializeOneTb readStringTable
  rw [bind_assoc]

theorem accepts_deserializeOneTb (nbGlobals : UInt32) :
    Accepts (deserializeOneTb nbGlobals) RawBlock.Valid RawBlock.bytes
      (RawBlock.value nbGlobals) := by
  intro input ctx rest
  rw [deserializeOneTb_eq, counted_ok_iff fun _ => accepts_readString]
  simp only [counted_ok_iff (accepts_readTemp _), counted_ok_iff accepts_readOp, pure_ok_iff,
    mapIdx_const, List.length_map]
  constructor
  · rintro ⟨strings, _, hcountStrings, hstrings, rfl, temps, _, hcountTemps, htemps, rfl, ops, _,
      hcountOps, hops, rfl, rfl, rfl⟩
    refine ⟨⟨strings, temps, ops⟩,
      ⟨hcountStrings, hstrings, hcountTemps, htemps, hcountOps, hops⟩, ?_, rfl⟩
    simp only [RawBlock.bytes, List.append_assoc]
  · rintro ⟨b, hb, rfl, rfl⟩
    simp only [RawBlock.bytes, List.append_assoc]
    exact ⟨b.strings, _, hb.countStrings, hb.strings, rfl, b.temps, _, hb.countTemps, hb.temps, rfl,
      b.ops, _, hb.countOps, hb.ops, rfl, rfl, rfl⟩

/-- The beginning of a block up to a temp whose name is not in the string table. -/
structure DanglingBlock where
  strings : List (List UInt8)
  count : UInt32
  temps : List RawTemp
  last : RawTemp

namespace DanglingBlock

def bytes (b : DanglingBlock) : List UInt8 :=
  countedBytes stringBytes b.strings ++ writeU32 b.count ++ b.temps.flatMap RawTemp.bytes ++
    b.last.bytes

structure Valid (b : DanglingBlock) : Prop where
  countStrings : b.strings.length < 2 ^ 32
  strings : ∀ s ∈ b.strings, ValidString s
  countTemps : b.temps.length < b.count.toNat
  temps : ∀ t ∈ b.temps, t.Enums ∧ t.Named b.strings.length
  enums : b.last.Enums
  dangling : ¬ b.last.Named b.strings.length

end DanglingBlock

theorem deserializeOneTb_panic_iff {nbGlobals : UInt32} {input : List UInt8} :
    deserializeOneTb nbGlobals input = .error .panic ↔
      ∃ (b : DanglingBlock) (rest : List UInt8), b.Valid ∧ input = b.bytes ++ rest := by
  rw [deserializeOneTb_eq, counted_panic_iff fun _ => accepts_readString]
  simp only [counted_panic_iff (accepts_readTemp _), counted_panic_iff accepts_readOp,
    readTemp_panic_iff, readString_ne_panic, readOp_ne_panic, pure_ne_error, mapIdx_const,
    List.length_map, and_false, exists_false, false_or, or_false]
  constructor
  · rintro ⟨strings, _, hcountStrings, hstrings, rfl, count, temps, _, hcountTemps, htemps, rfl,
      last, rest, henums, hdangling, rfl⟩
    refine ⟨⟨strings, count, temps, last⟩, rest,
      ⟨hcountStrings, hstrings, hcountTemps, htemps, henums, hdangling⟩, ?_⟩
    simp only [DanglingBlock.bytes, List.append_assoc]
  · rintro ⟨b, rest, hb, rfl⟩
    refine ⟨b.strings, _, hb.countStrings, hb.strings, ?_, b.count, b.temps, _, hb.countTemps,
      hb.temps, rfl, b.last, rest, hb.enums, hb.dangling, rfl⟩
    simp only [DanglingBlock.bytes, List.append_assoc]

/-! ## Files -/

/-- The header of a file, which begins with the magic number, up to the number of blocks. -/
structure Header where
  flags : Nat
  nbGlobals : UInt32
  nbLabels : UInt32

namespace Header

def Valid (h : Header) : Prop := h.flags < 65536

/-- What follows the magic number. -/
def bytes (h : Header) : List UInt8 :=
  writeU16 version ++ writeU16 h.flags ++ writeU32 h.nbGlobals ++ writeU32 h.nbLabels

end Header

/-- A file as it is stored. -/
structure RawFile where
  header : Header
  blocks : List RawBlock

namespace RawFile

def bytes (f : RawFile) : List UInt8 :=
  magic ++ f.header.bytes ++ countedBytes RawBlock.bytes f.blocks

structure Valid (f : RawFile) : Prop where
  header : f.header.Valid
  countBlocks : f.blocks.length < 2 ^ 32
  blocks : ∀ b ∈ f.blocks, b.Valid

/-- The contexts that are read. -/
def value (f : RawFile) : List Context := f.blocks.map (RawBlock.value f.header.nbGlobals)

end RawFile

/-- The beginning of a file up to a temp whose name is not in the string table. -/
structure DanglingFile where
  header : Header
  count : UInt32
  blocks : List RawBlock
  last : DanglingBlock

namespace DanglingFile

def bytes (f : DanglingFile) : List UInt8 :=
  magic ++ f.header.bytes ++ writeU32 f.count ++ f.blocks.flatMap RawBlock.bytes ++ f.last.bytes

structure Valid (f : DanglingFile) : Prop where
  header : f.header.Valid
  countBlocks : f.blocks.length < f.count.toNat
  blocks : ∀ b ∈ f.blocks, b.Valid
  last : f.last.Valid

end DanglingFile

theorem guard_ok_iff {α : Type} {v : Nat} {r : Read α} {input rest : List UInt8} {a : α} :
    (if v ≠ version then err "unsupported version" else r) input = .ok (a, rest) ↔
      v = version ∧ r input = .ok (a, rest) := by
  by_cases hv : v = version
  · rw [if_neg (not_not_intro hv)]
    simp only [hv, true_and]
  · rw [if_pos hv]
    constructor
    · nofun
    · exact fun h => absurd h.1 hv

theorem guard_panic_iff {α : Type} {v : Nat} {r : Read α} {input : List UInt8} :
    (if v ≠ version then err "unsupported version" else r) input = .error .panic ↔
      v = version ∧ r input = .error .panic := by
  by_cases hv : v = version
  · rw [if_neg (not_not_intro hv)]
    simp only [hv, true_and]
  · rw [if_pos hv]
    constructor
    · exact fun h => absurd h (err_ne_panic _ input)
    · exact fun h => absurd h.1 hv

/-- The fields of the header, and what is read after them. -/
def readHeader {α : Type} (k : UInt32 → Read α) : Read α :=
  readU16 >>= fun v => if v ≠ version then err "unsupported version" else
    readU16 >>= fun _ => readU32 >>= fun nbGlobals => readU32 >>= fun _ => k nbGlobals

theorem readHeader_ok_iff {α : Type} {k : UInt32 → Read α} {input rest : List UInt8} {a : α} :
    readHeader k input = .ok (a, rest) ↔ ∃ (h : Header) (mid : List UInt8), h.Valid ∧
      input = h.bytes ++ mid ∧ k h.nbGlobals mid = .ok (a, rest) := by
  simp only [readHeader, bind_ok_iff, guard_ok_iff, readU16_ok_iff, readU32_ok_iff]
  constructor
  · rintro ⟨_, _, ⟨-, rfl⟩, rfl, flags, _, ⟨hflags, rfl⟩, nbGlobals, _, rfl, nbLabels, mid, rfl, hk⟩
    refine ⟨⟨flags, nbGlobals, nbLabels⟩, mid, hflags, ?_, hk⟩
    simp only [Header.bytes, List.append_assoc]
  · rintro ⟨h, mid, hflags, rfl, hk⟩
    simp only [Header.bytes, List.append_assoc]
    exact ⟨version, _, ⟨by decide, rfl⟩, rfl, h.flags, _, ⟨hflags, rfl⟩, h.nbGlobals, _, rfl,
      h.nbLabels, mid, rfl, hk⟩

theorem readHeader_panic_iff {α : Type} {k : UInt32 → Read α} {input : List UInt8} :
    readHeader k input = .error .panic ↔ ∃ (h : Header) (mid : List UInt8), h.Valid ∧
      input = h.bytes ++ mid ∧ k h.nbGlobals mid = .error .panic := by
  simp only [readHeader, bind_error_iff, guard_panic_iff, readU16_ok_iff, readU32_ok_iff,
    readU16_ne_panic, readU32_ne_panic, false_or]
  constructor
  · rintro ⟨_, _, ⟨-, rfl⟩, rfl, flags, _, ⟨hflags, rfl⟩, nbGlobals, _, rfl, nbLabels, mid, rfl, hk⟩
    refine ⟨⟨flags, nbGlobals, nbLabels⟩, mid, hflags, ?_, hk⟩
    simp only [Header.bytes, List.append_assoc]
  · rintro ⟨h, mid, hflags, rfl, hk⟩
    simp only [Header.bytes, List.append_assoc]
    exact ⟨version, _, ⟨by decide, rfl⟩, rfl, h.flags, _, ⟨hflags, rfl⟩, h.nbGlobals, _, rfl,
      h.nbLabels, mid, rfl, hk⟩

theorem readFile_eq : readFile = readHeader fun nbGlobals => readU32 >>= fun count =>
    ((List.range count.toNat).mapM fun _ => deserializeOneTb nbGlobals) >>= pure := by
  simp only [bind_pure]
  rfl

theorem readFile_ok_iff {input rest : List UInt8} {ctxs : List Context} :
    readFile input = .ok (ctxs, rest) ↔
      ∃ f : RawFile, f.Valid ∧ magic ++ input = f.bytes ++ rest ∧ ctxs = f.value := by
  rw [readFile_eq, readHeader_ok_iff]
  simp only [counted_ok_iff fun _ => accepts_deserializeOneTb _, pure_ok_iff, mapIdx_const]
  constructor
  · rintro ⟨h, _, hh, rfl, blocks, _, hcount, hblocks, rfl, rfl, rfl⟩
    refine ⟨⟨h, blocks⟩, ⟨hh, hcount, hblocks⟩, ?_, rfl⟩
    simp only [RawFile.bytes, List.append_assoc]
  · rintro ⟨f, hf, hinput, rfl⟩
    simp only [RawFile.bytes, List.append_assoc, List.append_cancel_left_eq] at hinput
    exact ⟨f.header, _, hf.header, hinput, f.blocks, rest, hf.countBlocks, hf.blocks, rfl, rfl, rfl⟩

theorem readFile_panic_iff {input : List UInt8} :
    readFile input = .error .panic ↔
      ∃ (f : DanglingFile) (rest : List UInt8), f.Valid ∧ magic ++ input = f.bytes ++ rest := by
  rw [readFile_eq, readHeader_panic_iff]
  simp only [counted_panic_iff fun _ => accepts_deserializeOneTb _, deserializeOneTb_panic_iff,
    pure_ne_error, and_false, exists_false, or_false]
  constructor
  · rintro ⟨h, _, hh, rfl, count, blocks, _, hcount, hblocks, rfl, last, rest, hlast, rfl⟩
    refine ⟨⟨h, count, blocks, last⟩, rest, ⟨hh, hcount, hblocks, hlast⟩, ?_⟩
    simp only [DanglingFile.bytes, List.append_assoc]
  · rintro ⟨f, rest, hf, hinput⟩
    simp only [DanglingFile.bytes, List.append_assoc, List.append_cancel_left_eq] at hinput
    refine ⟨f.header, _, hf.header, hinput, f.count, f.blocks, _, hf.countBlocks, hf.blocks, ?_,
      f.last, rest, hf.last, rfl⟩
    rw [List.append_assoc]

/-! ## Sequences of files -/

theorem readBytes_magic (input : List UInt8) : readBytes 4 (magic ++ input) = .ok (magic, input) :=
  Serialization.reads_readBytes magic input

theorem readBytes_short {n : Nat} {input : List UInt8} (h : input.length < n) :
    readBytes n input = .error .unexpectedEof := if_pos h

/-- The end of the input in place of a magic number. -/
theorem deserializeLoop_short {fuel : Nat} {input : List UInt8} (h : input.length < 4) :
    deserializeLoop (fuel + 1) input = .ok [] := by
  rw [deserializeLoop, readBytes_short h]

theorem deserializeLoop_magic (fuel : Nat) (input : List UInt8) :
    deserializeLoop (fuel + 1) (magic ++ input) =
      (readFile input).bind fun s => (deserializeLoop fuel s.2).map fun more => s.1 ++ more := by
  rw [deserializeLoop, readBytes_magic]
  dsimp only
  rw [if_neg (not_not_intro rfl)]
  rfl

theorem deserializeLoop_file {f : RawFile} (hf : f.Valid) (fuel : Nat) (rest : List UInt8) :
    deserializeLoop (fuel + 1) (f.bytes ++ rest) =
      (deserializeLoop fuel rest).map fun more => f.value ++ more := by
  have hsplit : f.bytes ++ rest =
      magic ++ (f.header.bytes ++ (countedBytes RawBlock.bytes f.blocks ++ rest)) := by
    simp only [RawFile.bytes, List.append_assoc]
  rw [hsplit, deserializeLoop_magic, readFile_ok_iff.mpr ⟨f, hf, hsplit.symm, rfl⟩]
  rfl

theorem deserializeLoop_dangling {f : DanglingFile} (hf : f.Valid) (fuel : Nat)
    (rest : List UInt8) : deserializeLoop (fuel + 1) (f.bytes ++ rest) = .error .panic := by
  have hsplit : f.bytes ++ rest = magic ++ (f.header.bytes ++
      (writeU32 f.count ++ (f.blocks.flatMap RawBlock.bytes ++ (f.last.bytes ++ rest)))) := by
    simp only [DanglingFile.bytes, List.append_assoc]
  rw [hsplit, deserializeLoop_magic, readFile_panic_iff.mpr ⟨f, rest, hf, hsplit.symm⟩]
  rfl

/-- Input of four bytes or more that does not begin with the magic number. -/
theorem deserializeLoop_bad {input : List UInt8} (hlen : ¬ input.length < 4)
    (hmagic : ∀ rest, input ≠ magic ++ rest) (fuel : Nat) :
    deserializeLoop (fuel + 1) input = .error (.invalidData "bad magic") := by
  have hread : readBytes 4 input = .ok (input.take 4, input.drop 4) := if_neg hlen
  have hne : input.take 4 ≠ magic := by
    intro heq
    apply hmagic (input.drop 4)
    rw [← heq, List.take_append_drop]
  rw [deserializeLoop, hread]
  dsimp only
  rw [if_pos hne]

/-- What a round of the loop finds at the front of its input. -/
theorem round_cases (input : List UInt8) :
    input.length < 4 ∨
    (∃ (f : RawFile) (rest : List UInt8), f.Valid ∧ input = f.bytes ++ rest) ∨
    (∃ (f : DanglingFile) (rest : List UInt8), f.Valid ∧ input = f.bytes ++ rest) ∨
    ∃ e, e ≠ IoError.panic ∧ ∀ fuel, deserializeLoop (fuel + 1) input = .error e := by
  by_cases hlen : input.length < 4
  · exact Or.inl hlen
  · apply Or.inr
    by_cases hmagic : ∃ rest, input = magic ++ rest
    · obtain ⟨rest, rfl⟩ := hmagic
      cases hfile : readFile rest with
      | ok s =>
        obtain ⟨f, hf, hbytes, -⟩ := readFile_ok_iff.mp hfile
        exact Or.inl ⟨f, s.2, hf, hbytes⟩
      | error e =>
        apply Or.inr
        by_cases he : e = .panic
        · obtain ⟨f, rest', hf, hbytes⟩ := readFile_panic_iff.mp (he ▸ hfile)
          exact Or.inl ⟨f, rest', hf, hbytes⟩
        · refine Or.inr ⟨e, he, fun fuel => ?_⟩
          rw [deserializeLoop_magic, hfile]
          rfl
    · exact Or.inr (Or.inr ⟨.invalidData _, nofun, deserializeLoop_bad hlen (not_exists.mp hmagic)⟩)

/-- The input is a sequence of files and fewer bytes than a magic number has. -/
structure Files (input : List UInt8) (files : List RawFile) (tail : List UInt8) : Prop where
  valid : ∀ f ∈ files, f.Valid
  short : tail.length < 4
  split : input = files.flatMap RawFile.bytes ++ tail

/-- The input begins with a sequence of files and the beginning of one with a dangling name. -/
structure Dangles (input : List UInt8) (files : List RawFile) (last : DanglingFile)
    (rest : List UInt8) : Prop where
  valid : ∀ f ∈ files, f.Valid
  dangling : last.Valid
  split : input = files.flatMap RawFile.bytes ++ (last.bytes ++ rest)

theorem length_bytes_pos (f : RawFile) : 0 < f.bytes.length := by
  rw [RawFile.bytes, List.append_assoc, List.length_append]
  exact Nat.add_pos_left (by decide) _

/-- A sequence of files is read, and then the loop goes on with what follows. -/
theorem deserializeLoop_files {files : List RawFile} (hfiles : ∀ f ∈ files, f.Valid)
    {rest : List UInt8} {fuel : Nat} (hfuel : (files.flatMap RawFile.bytes ++ rest).length < fuel) :
    ∃ fuel', rest.length < fuel' ∧ deserializeLoop fuel (files.flatMap RawFile.bytes ++ rest) =
      (deserializeLoop fuel' rest).map fun more => files.flatMap RawFile.value ++ more := by
  induction files generalizing fuel with
  | nil =>
    refine ⟨fuel, hfuel, ?_⟩
    show deserializeLoop fuel rest = (deserializeLoop fuel rest).map id
    cases deserializeLoop fuel rest <;> rfl
  | cons f files ih =>
    have hpos := length_bytes_pos f
    rw [List.flatMap_cons, List.append_assoc, List.length_append] at hfuel
    cases fuel with
    | zero => exact absurd hfuel (Nat.not_lt_zero _)
    | succ fuel =>
      have hf : f.Valid := hfiles f List.mem_cons_self
      obtain ⟨fuel', hfuel', heq⟩ := ih (fun g hg => hfiles g (List.mem_cons_of_mem f hg))
        (show (files.flatMap RawFile.bytes ++ rest).length < fuel by omega)
      refine ⟨fuel', hfuel', ?_⟩
      rw [List.flatMap_cons, List.append_assoc, deserializeLoop_file hf, heq, List.flatMap_cons]
      cases deserializeLoop fuel' rest with
      | error e => rfl
      | ok more => simp only [Except.map, List.append_assoc]

/-- Every input is a sequence of files, ends in a dangling name or in an error. -/
theorem input_cases (input : List UInt8) {fuel : Nat} (hfuel : input.length < fuel) :
    (∃ files tail, Files input files tail) ∨ (∃ files last rest, Dangles input files last rest) ∨
    ∃ e, e ≠ IoError.panic ∧ deserializeLoop fuel input = .error e := by
  induction fuel generalizing input with
  | zero => exact absurd hfuel (Nat.not_lt_zero _)
  | succ fuel ih =>
    rcases round_cases input with hshort | ⟨f, rest, hf, rfl⟩ | ⟨f, rest, hf, rfl⟩ | ⟨e, he, heq⟩
    · exact Or.inl ⟨[], input, nofun, hshort, rfl⟩
    · have hpos := length_bytes_pos f
      rw [List.length_append] at hfuel
      rcases ih rest (by omega) with ⟨files, tail, h⟩ | ⟨files, last, rest', h⟩ | ⟨e, he, heq⟩
      · refine Or.inl ⟨f :: files, tail, List.forall_mem_cons.mpr ⟨hf, h.valid⟩, h.short, ?_⟩
        rw [h.split, List.flatMap_cons, List.append_assoc]
      · refine Or.inr (Or.inl ⟨f :: files, last, rest',
          List.forall_mem_cons.mpr ⟨hf, h.valid⟩, h.dangling, ?_⟩)
        rw [h.split, List.flatMap_cons, List.append_assoc]
      · refine Or.inr (Or.inr ⟨e, he, ?_⟩)
        rw [deserializeLoop_file hf, heq]
        rfl
    · exact Or.inr (Or.inl ⟨[], f, rest, nofun, hf, rfl⟩)
    · exact Or.inr (Or.inr ⟨e, he, heq fuel⟩)

theorem Files.deserialize {input : List UInt8} {files : List RawFile} {tail : List UInt8}
    (h : Files input files tail) : deserialize input = .ok (files.flatMap RawFile.value) := by
  obtain ⟨fuel, hfuel, heq⟩ := deserializeLoop_files h.valid
    (h.split ▸ Nat.lt_succ_self input.length)
  cases fuel with
  | zero => exact absurd hfuel (Nat.not_lt_zero _)
  | succ fuel =>
    show deserializeLoop (input.length + 1) input = _
    rw [← h.split] at heq
    rw [heq, deserializeLoop_short h.short, Except.map, List.append_nil]

theorem Dangles.deserialize {input : List UInt8} {files : List RawFile} {last : DanglingFile}
    {rest : List UInt8} (h : Dangles input files last rest) :
    deserialize input = .error .panic := by
  obtain ⟨fuel, hfuel, heq⟩ := deserializeLoop_files h.valid
    (h.split ▸ Nat.lt_succ_self input.length)
  cases fuel with
  | zero => exact absurd hfuel (Nat.not_lt_zero _)
  | succ fuel =>
    show deserializeLoop (input.length + 1) input = _
    rw [← h.split] at heq
    rw [heq, deserializeLoop_dangling h.dangling, Except.map]

theorem deserialize_ok_iff {input : List UInt8} {ctxs : List Context} :
    deserialize input = .ok ctxs ↔
      ∃ files tail, Files input files tail ∧ ctxs = files.flatMap RawFile.value := by
  constructor
  · intro h
    rcases input_cases input (Nat.lt_succ_self _) with
      ⟨files, tail, hfiles⟩ | ⟨files, last, rest, hdangles⟩ | ⟨e, he, heq⟩
    · refine ⟨files, tail, hfiles, ?_⟩
      rw [hfiles.deserialize] at h
      injection h with h
      exact h.symm
    · rw [hdangles.deserialize] at h
      cases h
    · rw [show deserialize input = .error e from heq] at h
      cases h
  · rintro ⟨files, tail, hfiles, rfl⟩
    exact hfiles.deserialize

theorem deserialize_panic_iff {input : List UInt8} :
    deserialize input = .error .panic ↔ ∃ files last rest, Dangles input files last rest := by
  constructor
  · intro h
    rcases input_cases input (Nat.lt_succ_self _) with
      ⟨files, tail, hfiles⟩ | hdangles | ⟨e, he, heq⟩
    · rw [hfiles.deserialize] at h
      cases h
    · exact hdangles
    · rw [show deserialize input = .error e from heq] at h
      injection h with h
      exact absurd h he
  · rintro ⟨files, last, rest, hdangles⟩
    exact hdangles.deserialize

/-! ## What the claim of totality asks for -/

/-- The ops have as many arguments as there are slots, and every temp that an op or a temp refers to
exists. -/
structure Sane (ctx : Context) : Prop where
  nargs : ∀ op ∈ ctx.ops, op.nargs.toNat ≤ maxOpArgs
  args : ∀ op ∈ ctx.ops, ∀ k < op.opc.opDef.nbOargs + op.opc.opDef.nbIargs,
    (op.args.toList.getD k 0).toNat < ctx.temps.length
  bases : ∀ t ∈ ctx.temps, ∀ base ∈ t.memBase, base.toNat < ctx.temps.length

/-- What the loop of `deserialize` has not read as part of a file when it ends. -/
def unreadLoop : Nat → List UInt8 → List UInt8
  | 0, input => input
  | fuel + 1, input =>
    match readBytes 4 input with
    | .error _ => input
    | .ok (_, rest) =>
      match readFile rest with
      | .error _ => rest
      | .ok (_, rest) => unreadLoop fuel rest

def unread (input : List UInt8) : List UInt8 := unreadLoop (input.length + 1) input

/-- No panic, and what is read is sane and is the whole input. -/
def TotalOn (input : List UInt8) : Prop :=
  deserialize input ≠ .error .panic ∧
    ∀ ctxs, deserialize input = .ok ctxs → (∀ ctx ∈ ctxs, Sane ctx) ∧ unread input = []

/-- The counts and temp arguments of an op, in a block of `n` temps. -/
def RawOp.Sane (n : Nat) (op : RawOp) : Prop :=
  op.nargs.toNat ≤ maxOpArgs ∧
    ∀ k < (Opcode.ofNat op.opc.toNat).opDef.nbOargs + (Opcode.ofNat op.opc.toNat).opDef.nbIargs,
      (op.args.getD k 0).toNat < n

/-- The references within a block. -/
structure RawBlock.Sane (b : RawBlock) : Prop where
  ops : ∀ op ∈ b.ops, op.Sane b.temps.length
  bases : ∀ t ∈ b.temps, t.Based b.temps.length

theorem getD_value {op : RawOp} (hop : op.Valid) (i k : Nat) :
    (op.value i).args.toList.getD k 0 = op.args.getD k 0 := by
  obtain ⟨-, -, -, hlen⟩ := hop
  by_cases hk : k < maxOpArgs
  · rw [List.getD_eq_getElem?_getD, List.getElem?_eq_getElem (by simpa using hk)]
    simp [RawOp.value]
  · rw [List.getD_eq_getElem?_getD, List.getElem?_eq_none (by simpa using hk),
      List.getD_eq_getElem?_getD, List.getElem?_eq_none (by omega)]

theorem mem_memBase_value {strtab : List String} {i : Nat} {t : RawTemp} {base : UInt32} :
    base ∈ (t.value strtab i).memBase ↔ t.memBase ≠ noIndex ∧ base = t.memBase := by
  show (if t.memBase = noIndex then none else some t.memBase) = some base ↔ _
  by_cases hnone : t.memBase = noIndex
  · simp [hnone]
  · simp [hnone, eq_comm]

theorem sane_value_iff {b : RawBlock} (hb : b.Valid) (nbGlobals : UInt32) :
    Sane (b.value nbGlobals) ↔ b.Sane := by
  have hlen : (b.value nbGlobals).temps.length = b.temps.length := List.length_mapIdx
  constructor
  · intro h
    constructor
    · intro op hop
      obtain ⟨i, hi, rfl⟩ := List.getElem_of_mem hop
      have hmem : b.ops[i].value i ∈ (b.value nbGlobals).ops :=
        List.mem_mapIdx.mpr ⟨i, hi, rfl⟩
      refine ⟨h.nargs _ hmem, fun k hk => ?_⟩
      rw [← getD_value (hb.ops _ hop) i k, ← hlen]
      exact h.args _ hmem k hk
    · intro t ht
      obtain ⟨i, hi, rfl⟩ := List.getElem_of_mem ht
      by_cases hnone : b.temps[i].memBase = noIndex
      · exact Or.inl hnone
      · apply Or.inr
        rw [← hlen]
        apply h.bases _ (List.mem_mapIdx.mpr ⟨i, hi, rfl⟩)
        exact mem_memBase_value.mpr ⟨hnone, rfl⟩
  · intro h
    constructor
    · intro op hop
      obtain ⟨i, hi, rfl⟩ := List.mem_mapIdx.mp hop
      exact (h.ops _ (List.getElem_mem hi)).1
    · intro op hop k hk
      obtain ⟨i, hi, rfl⟩ := List.mem_mapIdx.mp hop
      rw [getD_value (hb.ops _ (List.getElem_mem hi)), hlen]
      exact (h.ops _ (List.getElem_mem hi)).2 k hk
    · intro t ht base hbase
      obtain ⟨i, hi, rfl⟩ := List.mem_mapIdx.mp ht
      obtain ⟨hsome, rfl⟩ := mem_memBase_value.mp hbase
      rw [hlen]
      exact (h.bases _ (List.getElem_mem hi)).resolve_left hsome

theorem unreadLoop_files {files : List RawFile} (hfiles : ∀ f ∈ files, f.Valid)
    {tail : List UInt8} (hshort : tail.length < 4) {fuel : Nat}
    (hfuel : (files.flatMap RawFile.bytes ++ tail).length < fuel) :
    unreadLoop fuel (files.flatMap RawFile.bytes ++ tail) = tail := by
  induction files generalizing fuel with
  | nil =>
    cases fuel with
    | zero => rfl
    | succ fuel =>
      show unreadLoop (fuel + 1) tail = tail
      rw [unreadLoop, readBytes_short hshort]
  | cons f files ih =>
    have hpos := length_bytes_pos f
    rw [List.flatMap_cons, List.append_assoc, List.length_append] at hfuel
    cases fuel with
    | zero => exact absurd hfuel (Nat.not_lt_zero _)
    | succ fuel =>
      have hsplit : (f :: files).flatMap RawFile.bytes ++ tail = magic ++ (f.header.bytes ++
          (countedBytes RawBlock.bytes f.blocks ++ (files.flatMap RawFile.bytes ++ tail))) := by
        simp only [List.flatMap_cons, RawFile.bytes, List.append_assoc]
      have hfile := readFile_ok_iff.mpr ⟨f, hfiles f List.mem_cons_self, by
        rw [← hsplit, List.flatMap_cons, List.append_assoc], rfl⟩
      rw [hsplit, unreadLoop, readBytes_magic]
      dsimp only
      rw [hfile]
      exact ih (fun g hg => hfiles g (List.mem_cons_of_mem f hg)) (by omega)

theorem Files.unread {input : List UInt8} {files : List RawFile} {tail : List UInt8}
    (h : Files input files tail) : unread input = tail := by
  have hread := unreadLoop_files h.valid h.short (h.split ▸ Nat.lt_succ_self input.length)
  rw [← h.split] at hread
  exact hread

/-- `deserialize` is total exactly on the inputs without a dangling name which, where they are
sequences of files, end with a file and refer only to temps that exist. -/
theorem totalOn_iff (input : List UInt8) : TotalOn input ↔
    (∀ files last rest, ¬ Dangles input files last rest) ∧
      ∀ files tail, Files input files tail →
        tail = [] ∧ ∀ f ∈ files, ∀ b ∈ f.blocks, b.Sane := by
  constructor
  · rintro ⟨hpanic, hsane⟩
    constructor
    · exact fun files last rest h => hpanic h.deserialize
    · intro files tail h
      obtain ⟨hctxs, hunread⟩ := hsane _ h.deserialize
      refine ⟨h.unread ▸ hunread, fun f hf b hb => ?_⟩
      apply (sane_value_iff ((h.valid f hf).blocks b hb) f.header.nbGlobals).mp
      apply hctxs
      exact List.mem_flatMap.mpr ⟨f, hf, List.mem_map.mpr ⟨b, hb, rfl⟩⟩
  · rintro ⟨hnames, hfiles⟩
    constructor
    · intro h
      obtain ⟨files, last, rest, hdangles⟩ := deserialize_panic_iff.mp h
      exact hnames files last rest hdangles
    · intro ctxs h
      obtain ⟨files, tail, hsplit, rfl⟩ := deserialize_ok_iff.mp h
      obtain ⟨htail, hsane⟩ := hfiles files tail hsplit
      refine ⟨fun ctx hctx => ?_, hsplit.unread.trans htail⟩
      obtain ⟨f, hf, hvalue⟩ := List.mem_flatMap.mp hctx
      obtain ⟨b, hb, rfl⟩ := List.mem_map.mp hvalue
      exact (sane_value_iff ((hsplit.valid f hf).blocks b hb) _).mpr (hsane f hf b hb)

/-- A file of one block without strings whose one temp has the name of index 0. -/
def danglingInput : List UInt8 :=
  magic ++ [1, 0, 0, 0, 0, 0, 0, 0, 0, 0, 0, 0, 1, 0, 0, 0] ++ [0, 0, 0, 0] ++ [1, 0, 0, 0] ++
    List.replicate 28 0

theorem deserialize_panics : ¬ ∀ input, TotalOn input :=
  fun h => (h danglingInput).1 rfl

end TcgRs.Analysis.UntrustedInput
