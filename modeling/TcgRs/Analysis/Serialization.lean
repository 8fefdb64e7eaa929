import Mathlib.Data.List.Forall2
import TcgRs.Model.Serialize

/-!
# The binary IR format reads back what was written

The format stores a temp's and an op's own fields; positions, the allocator's initial view and the
labels are rebuilt.  Every field is read back by the reader of its kind, so that the readers stay in
step with the writers over lists of any length.
-/

set_option autoImplicit false

namespace TcgRs.Analysis.Serialization

open TcgRs.Model.Ir (IrType TempKind Opcode)
open TcgRs.Model.Serialize TcgRs.Library

/-! ## What the format keeps -/

/-- The fields of a temp that the format stores. -/
structure StoredTemp where
  kind : TempKind
  ty : IrType
  baseType : IrType
  reg : Option UInt8
  val : BitVec 64
  memBase : Option UInt32
  memOffset : BitVec 64
  name : Option String
  deriving DecidableEq

def storedTemp (t : Temp) : StoredTemp :=
  ⟨t.kind, t.ty, t.baseType, t.reg, t.val, t.memBase, t.memOffset, t.name⟩

/-- The fields of an op that the format stores. -/
structure StoredOp where
  opc : Opcode
  opType : IrType
  param1 : UInt8
  param2 : UInt8
  nargs : UInt8
  args : Vector UInt32 maxOpArgs
  deriving DecidableEq

def storedOp (op : Op) : StoredOp :=
  ⟨op.opc, op.opType, op.param1, op.param2, op.nargs, op.args⟩

/-- What a round trip keeps of a context. -/
structure Stored where
  nbGlobals : UInt32
  nbLabels : Nat
  temps : List StoredTemp
  ops : List StoredOp
  deriving DecidableEq

def stored (ctx : Context) : Stored :=
  ⟨ctx.nbGlobals, ctx.labels.length, ctx.temps.map storedTemp, ctx.ops.map storedOp⟩

/-- A context as the frontend leaves it.  Temps come from the constructors of `Temp` and ops from
`Op::with_args`. -/
structure AsLeft (ctx : Context) : Prop where
  /-- Indices are `u32`. -/
  nbTemps : ctx.temps.length < 2 ^ 32
  nbOps : ctx.ops.length < 2 ^ 32
  /-- A Fixed temp is in one of the host's registers, and a base is a temp of the context. -/
  reg : ∀ t ∈ ctx.temps, ∀ r ∈ t.reg, r.toNat < 16
  base : ∀ t ∈ ctx.temps, ∀ b ∈ t.memBase, b.toNat < ctx.temps.length
  name : ∀ t ∈ ctx.temps, ∀ s ∈ t.name, s.utf8ByteSize < 65536
  idx : ∀ i op, ctx.ops[i]? = some op → op.idx = UInt32.ofNat i
  /-- Slots that are not used hold zero. -/
  nargs : ∀ op ∈ ctx.ops, op.nargs.toNat ≤ maxOpArgs
  unused : ∀ op ∈ ctx.ops, ∀ k < maxOpArgs, op.nargs.toNat ≤ k → op.args.toList.getD k 0 = 0
  /-- The ops refer to labels of the context, and to each of them. -/
  label_exists : ∀ op ∈ ctx.ops, ∀ id ∈ labelRef op, id.toNat < ctx.labels.length
  label_used : ∀ n < ctx.labels.length, ∃ op ∈ ctx.ops, ∃ id ∈ labelRef op, id.toNat = n

/-! ## Fields -/

theorem reads_readBytes (bs : List UInt8) : Reads (readBytes bs.length) bs bs :=
  reads_readExact _ bs

theorem reads_readU8 (v : UInt8) : Reads readU8 (writeU8 v) v := by
  have h := (reads_readLe IoError.unexpectedEof (n := 1) (v := v.toNat) v.toNat_lt).map UInt8.ofNat
  rwa [UInt8.ofNat_toNat] at h

theorem reads_readU16 {v : Nat} (hv : v < 65536) : Reads readU16 (writeU16 v) v :=
  reads_readLe _ hv

theorem reads_readU32 (v : UInt32) : Reads readU32 (writeU32 v) v := by
  have h := (reads_readLe IoError.unexpectedEof (n := 4) (v := v.toNat) v.toNat_lt).map UInt32.ofNat
  rwa [UInt32.ofNat_toNat] at h

theorem reads_readU64 (v : BitVec 64) : Reads readU64 (writeU64 v) v := by
  have h := (reads_readLe IoError.unexpectedEof (n := 8) (v := v.toNat) v.isLt).map
    (BitVec.ofNat 64)
  rwa [BitVec.ofNat_toNat, BitVec.setWidth_eq] at h

theorem u8ToKind_kindToU8 (kind : TempKind) : u8ToKind (kindToU8 kind) = pure kind := by
  cases kind <;> rfl

theorem u8ToType_typeToU8 (ty : IrType) : u8ToType (typeToU8 ty) = pure ty := by
  cases ty <;> rfl

theorem opcode_lt (opc : Opcode) : opc.ctorIdx < opcodeCount := by
  cases opc <;> decide

theorem u8ToOpcode_opcodeToU8 (opc : Opcode) : u8ToOpcode (opcodeToU8 opc) = pure opc := by
  have hlt : opc.ctorIdx < 128 := opcode_lt opc
  have hnat : (opcodeToU8 opc).toNat = opc.ctorIdx := by
    rw [opcodeToU8, UInt8.toNat_ofNat', Nat.mod_eq_of_lt (by omega)]
  rw [u8ToOpcode, hnat, if_pos (opcode_lt opc), Opcode.ofNat_ctorIdx]

/-- A byte that stands for a value of an enumeration. -/
theorem reads_enum {α β : Type} {f : UInt8 → Read α} {g : α → Read β} {v : UInt8} {a : α} {b : β}
    {bs : List UInt8} (hf : f v = pure a) (h : Reads (g a) bs b) :
    Reads (do let x ← (← readU8) |> f; g x) (writeU8 v ++ bs) b := by
  apply Reads.bind (reads_readU8 v)
  show Reads (f v >>= g) bs b
  rw [hf, pure_bind]
  exact h

/-! ## Strings -/

theorem utf8_length (s : String) : s.toUTF8.data.toList.length = s.utf8ByteSize := by
  rw [Array.length_toList]
  rfl

theorem fromUTF8_toUTF8 (s : String) :
    String.fromUTF8? ⟨s.toUTF8.data.toList.toArray⟩ = some s := by
  have hvalid : (⟨s.toUTF8.data⟩ : ByteArray).IsValidUTF8 := s.isValidUTF8
  rw [Array.toArray_toList, String.fromUTF8?, dif_pos hvalid]
  rfl

theorem reads_readString {s : String} (hs : s.utf8ByteSize < 65536) :
    Reads readString (StringTable.writeString s) s := by
  have hlen : s.toUTF8.data.toList.length < 65536 := by
    rw [utf8_length]
    exact hs
  apply Reads.bind (reads_readU16 hlen)
  intro rest
  have hread := reads_readBytes s.toUTF8.data.toList rest
  show (readBytes _ (_ ++ rest) >>= fun b => _) = _
  rw [hread]
  simp only [bind, Except.bind, fromUTF8_toUTF8]
  rfl

/-! ## The string table -/

/-- The index that was noted for a temp leads to its name. -/
def Named (strings : List String) (t : Temp) (idx : UInt32) : Prop :=
  (t.name = none ∧ idx = noIndex) ∨
    (∃ name, t.name = some name ∧ strings[idx.toNat]? = some name ∧ idx ≠ noIndex)

theorem Named.grow {strings : List String} {t : Temp} {idx : UInt32} (h : Named strings t idx)
    (s : String) : Named (strings ++ [s]) t idx := by
  rcases h with h | ⟨name, hname, hat, hne⟩
  · exact .inl h
  · refine .inr ⟨name, hname, ?_, hne⟩
    rw [List.getElem?_append_left (List.getElem?_eq_some_iff.mp hat).1]
    exact hat

/-- What interning the names of some temps has built. -/
structure Interned (temps : List Temp) (s : StringTable × List UInt32) : Prop where
  map : ∀ name idx, s.1.map name = some idx →
    s.1.strings[idx.toNat]? = some name ∧ idx.toNat < temps.length
  count : s.1.strings.length ≤ temps.length
  strings : ∀ name ∈ s.1.strings, ∃ t ∈ temps, t.name = some name
  indices : List.Forall₂ (Named s.1.strings) temps s.2

theorem toNat_ofNat_index {n : Nat} (hn : n < 2 ^ 32) : (UInt32.ofNat n).toNat = n := by
  rw [UInt32.toNat_ofNat', Nat.mod_eq_of_lt hn]

/-- An index below the number of temps is not the mark of a missing one. -/
theorem ne_noIndex {idx : UInt32} {n : Nat} (hn : n < 2 ^ 32) (h : idx.toNat < n) :
    idx ≠ noIndex := by
  intro heq
  rw [heq] at h
  have hmark : noIndex.toNat = 2 ^ 32 - 1 := rfl
  omega

theorem Interned.step {temps : List Temp} {s : StringTable × List UInt32} (hs : Interned temps s)
    (t : Temp) (hsize : temps.length + 1 < 2 ^ 32) : Interned (temps ++ [t]) (internName s t) := by
  obtain ⟨table, indices⟩ := s
  have hcount : table.strings.length ≤ temps.length := hs.count
  have hlen : (temps ++ [t]).length = temps.length + 1 := by simp
  have hmem : ∀ name, (∃ u ∈ temps, u.name = some name) → ∃ u ∈ temps ++ [t], u.name = some name := by
    rintro name ⟨u, hu, hname⟩
    exact ⟨u, List.mem_append_left _ hu, hname⟩
  cases hname : t.name with
  | none =>
    rw [internName, hname]
    refine ⟨?_, ?_, fun name h => hmem name (hs.strings name h), ?_⟩
    · intro name idx h
      obtain ⟨hat, hlt⟩ := hs.map name idx h
      exact ⟨hat, by rw [hlen]; omega⟩
    · rw [hlen]
      exact Nat.le_succ_of_le hcount
    · exact List.rel_append hs.indices (.cons (.inl ⟨hname, rfl⟩) .nil)
  | some name =>
    rw [internName, hname]
    cases hmap : table.map name with
    | some idx =>
      -- a name that was seen before
      simp only [StringTable.intern, hmap]
      obtain ⟨hat, hlt⟩ := hs.map name idx hmap
      refine ⟨?_, ?_, fun name h => hmem name (hs.strings name h), ?_⟩
      · intro name' idx' h
        obtain ⟨hat', hlt'⟩ := hs.map name' idx' h
        exact ⟨hat', by rw [hlen]; omega⟩
      · rw [hlen]
        exact Nat.le_succ_of_le hcount
      · apply List.rel_append hs.indices
        refine .cons (.inr ⟨name, hname, hat, ?_⟩) .nil
        apply ne_noIndex (n := temps.length) (by omega) hlt
    | none =>
      -- a new name, put at the end of the table
      simp only [StringTable.intern, hmap]
      have hidx := toNat_ofNat_index (n := table.strings.length) (by omega)
      have hat : (table.strings ++ [name])[(UInt32.ofNat table.strings.length).toNat]? =
          some name := by
        rw [hidx]
        simp
      refine ⟨?_, ?_, ?_, ?_⟩
      · intro name' idx' h
        dsimp only at h
        rw [Function.update_apply] at h
        split at h
        · rename_i heq
          injection h with h
          rw [heq, ← h]
          exact ⟨hat, by rw [hidx, hlen]; omega⟩
        · obtain ⟨hat', hlt'⟩ := hs.map name' idx' h
          refine ⟨?_, by rw [hlen]; omega⟩
          dsimp only
          rw [List.getElem?_append_left (List.getElem?_eq_some_iff.mp hat').1]
          exact hat'
      · rw [hlen]
        simpa using hcount
      · intro name' h
        rcases List.mem_append.mp h with h | h
        · exact hmem name' (hs.strings name' h)
        · rw [List.mem_singleton.mp h]
          exact ⟨t, by simp, hname⟩
      · apply List.rel_append
        · exact hs.indices.imp fun u idx hu => hu.grow name
        · refine .cons (.inr ⟨name, hname, hat, ?_⟩) .nil
          apply ne_noIndex (n := temps.length + 1) hsize
          omega

theorem interned_internNames (temps : List Temp) (hsize : temps.length < 2 ^ 32) :
    Interned temps (internNames temps) := by
  -- every prefix of the temps is interned
  have hprefix : ∀ rest done s, Interned done s → done.length + rest.length < 2 ^ 32 →
      Interned (done ++ rest) (rest.foldl internName s) := by
    intro rest
    induction rest with
    | nil =>
      intro done s hs _
      rw [List.append_nil]
      exact hs
    | cons t rest ih =>
      intro done s hs hlt
      rw [List.length_cons] at hlt
      have hnext := ih (done ++ [t]) (internName s t) (hs.step t (by omega))
        (by rw [List.length_append, List.length_singleton]; omega)
      rwa [List.append_assoc, List.singleton_append] at hnext
  have hempty : Interned [] (StringTable.new, []) :=
    ⟨nofun, Nat.le_refl 0, nofun, .nil⟩
  exact hprefix temps [] _ hempty (by rw [List.length_nil]; omega)

theorem reads_readStringTable {table : StringTable} (hcount : table.strings.length < 2 ^ 32)
    (hnames : ∀ s ∈ table.strings, s.utf8ByteSize < 65536) :
    Reads readStringTable table.writeTo table.strings := by
  apply Reads.bind (reads_readU32 _)
  rw [toNat_ofNat_index hcount]
  apply reads_mapM_self
  intro i s hs
  exact reads_readString (hnames s (List.mem_of_getElem? hs))

/-! ## Temps and ops -/

/-- The temp that is read back at position `i`. -/
def readBack (i : Nat) (t : Temp) : Temp where
  idx := UInt32.ofNat i
  ty := t.ty
  baseType := t.baseType
  kind := t.kind
  valType := initialVal t.kind
  reg := t.reg
  memCoherent := decide (t.kind = .global)
  memAllocated := decide (t.kind = .global)
  val := t.val
  memBase := t.memBase
  memOffset := t.memOffset
  name := t.name

theorem lookupName_of_named {strings : List String} {t : Temp} {idx : UInt32}
    (h : Named strings t idx) : lookupName strings idx = pure t.name := by
  rw [lookupName]
  rcases h with ⟨hnone, hmark⟩ | ⟨name, hname, hat, hne⟩
  · rw [if_pos hmark, hnone]
  · rw [if_neg hne, hat, hname]

theorem getD_noReg {reg : Option UInt8} (h : ∀ r ∈ reg, r.toNat < 16) :
    (if reg.getD noReg = noReg then none else some (reg.getD noReg)) = reg := by
  cases reg with
  | none => rfl
  | some r =>
    have hne : r ≠ noReg := by
      intro heq
      have hlt := h r rfl
      rw [heq] at hlt
      revert hlt
      decide
    rw [Option.getD_some, if_neg hne]

theorem getD_noIndex {base : Option UInt32} {n : Nat} (hn : n < 2 ^ 32)
    (h : ∀ b ∈ base, b.toNat < n) :
    (if base.getD noIndex = noIndex then none else some (base.getD noIndex)) = base := by
  cases base with
  | none => rfl
  | some b => rw [Option.getD_some, if_neg (ne_noIndex hn (h b rfl))]

theorem reads_readTemp {strings : List String} {t : Temp} {idx : UInt32} {n : Nat}
    (hn : n < 2 ^ 32) (hnamed : Named strings t idx) (hreg : ∀ r ∈ t.reg, r.toNat < 16)
    (hbase : ∀ b ∈ t.memBase, b.toNat < n) (i : Nat) :
    Reads (readTemp strings i) (writeTemp t idx) (readBack i t) := by
  have hwrite : writeTemp t idx = writeU8 (kindToU8 t.kind) ++ (writeU8 (typeToU8 t.ty) ++
      (writeU8 (typeToU8 t.baseType) ++ (writeU8 (t.reg.getD noReg) ++ (writeU64 t.val ++
        (writeU32 (t.memBase.getD noIndex) ++ (writeI64 t.memOffset ++ (writeU32 idx ++ []))))))) := by
    simp only [writeTemp, List.append_assoc, List.append_nil]
  rw [hwrite]
  apply reads_enum (u8ToKind_kindToU8 t.kind)
  apply reads_enum (u8ToType_typeToU8 t.ty)
  apply reads_enum (u8ToType_typeToU8 t.baseType)
  apply Reads.bind (reads_readU8 _)
  apply Reads.bind (reads_readU64 _)
  apply Reads.bind (reads_readU32 _)
  apply Reads.bind (reads_readU64 _)
  apply Reads.bind (reads_readU32 _)
  rw [lookupName_of_named hnamed, pure_bind, getD_noReg hreg, getD_noIndex hn hbase]
  exact Reads.pure _

/-- The arguments that are read, followed by zeros, are the arguments that were there. -/
theorem args_readBack {op : Op}
    (hunused : ∀ k < maxOpArgs, op.nargs.toNat ≤ k → op.args.toList.getD k 0 = 0) :
    (Vector.ofFn fun k => (op.args.toList.take op.nargs.toNat).getD k 0) = op.args := by
  apply Vector.ext
  intro k hk
  have hget : op.args[k] = op.args.toList.getD k 0 := by
    rw [List.getD_eq_getElem?_getD, List.getElem?_eq_getElem (by simpa using hk)]
    simp
  rw [Vector.getElem_ofFn, hget]
  by_cases hlt : k < op.nargs.toNat
  · rw [List.getD_eq_getElem?_getD, List.getElem?_take_of_lt hlt, ← List.getD_eq_getElem?_getD]
  · have hlen : (op.args.toList.take op.nargs.toNat).length ≤ k := by
      rw [List.length_take]
      omega
    rw [hunused k hk (Nat.le_of_not_lt hlt), List.getD_eq_getElem?_getD]
    exact congrArg (Option.getD · 0) (List.getElem?_eq_none hlen)

theorem reads_readOp {op : Op} {i : Nat} (hidx : op.idx = UInt32.ofNat i)
    (hunused : ∀ k < maxOpArgs, op.nargs.toNat ≤ k → op.args.toList.getD k 0 = 0) :
    Reads (readOp i) (writeOp op) op := by
  have hwrite : writeOp op = writeU8 (opcodeToU8 op.opc) ++ (writeU8 (typeToU8 op.opType) ++
      (writeU8 op.param1 ++ (writeU8 op.param2 ++ (writeU8 op.nargs ++ ([0, 0, 0] ++
        ((op.args.toList.take op.nargs.toNat).flatMap writeU32 ++ [])))))) := by
    simp only [writeOp, List.append_assoc, List.append_nil]
  have hlen : (op.args.toList.take op.nargs.toNat).length = min op.nargs.toNat maxOpArgs := by
    rw [List.length_take, Vector.length_toList]
  have hargs : Reads ((List.range (min op.nargs.toNat maxOpArgs)).mapM fun _ => readU32)
      ((op.args.toList.take op.nargs.toNat).flatMap writeU32)
      (op.args.toList.take op.nargs.toNat) := by
    rw [← hlen]
    apply reads_mapM_self
    intro _ v _
    exact reads_readU32 v
  rw [hwrite]
  apply reads_enum (u8ToOpcode_opcodeToU8 op.opc)
  apply reads_enum (u8ToType_typeToU8 op.opType)
  apply Reads.bind (reads_readU8 _)
  apply Reads.bind (reads_readU8 _)
  apply Reads.bind (reads_readU8 _)
  apply Reads.bind (reads_readBytes [0, 0, 0])
  apply Reads.bind hargs
  rw [args_readBack hunused, ← hidx]
  exact Reads.pure op

/-! ## Labels -/

theorem length_growLabels (labels : List Label) (id : UInt32) :
    (growLabels labels id).length = max labels.length (id.toNat + 1) := by
  simp only [growLabels, List.length_append, List.length_map, List.length_range']
  omega

/-- The rebuilt labels are as many as the largest label that an op refers to asks for. -/
theorem length_rebuildLabels {ops : List Op} {n : Nat}
    (hexists : ∀ op ∈ ops, ∀ id ∈ labelRef op, id.toNat < n)
    (hused : ∀ k < n, ∃ op ∈ ops, ∃ id ∈ labelRef op, id.toNat = k) :
    (rebuildLabels ops).length = n := by
  -- going through the ops, the list grows to cover each reference, and not beyond `n`
  let step := fun (labels : List Label) op => (labelRef op).elim labels (growLabels labels)
  have hfold : ∀ (l : List Op) (labels : List Label), labels.length ≤ n → (∀ op ∈ l, op ∈ ops) →
      (l.foldl step labels).length ≤ n ∧ labels.length ≤ (l.foldl step labels).length ∧
        ∀ op ∈ l, ∀ id ∈ labelRef op, id.toNat < (l.foldl step labels).length := by
    intro l
    induction l with
    | nil => exact fun labels hle _ => ⟨hle, Nat.le_refl _, nofun⟩
    | cons op l ih =>
      intro labels hle hmem
      have hop := hmem op List.mem_cons_self
      have hrest : ∀ o ∈ l, o ∈ ops := fun o ho => hmem o (List.mem_cons_of_mem op ho)
      have hgrown : (step labels op).length ≤ n ∧ labels.length ≤ (step labels op).length ∧
          ∀ id ∈ labelRef op, id.toNat < (step labels op).length := by
        dsimp only [step]
        cases href : labelRef op with
        | none => exact ⟨hle, Nat.le_refl _, nofun⟩
        | some id =>
          have hlt := hexists op hop id href
          simp only [Option.elim_some, length_growLabels, Option.mem_some_iff, forall_eq']
          omega
      obtain ⟨hle', hmono, hlast⟩ := ih _ hgrown.1 hrest
      refine ⟨hle', Nat.le_trans hgrown.2.1 hmono, ?_⟩
      intro o ho id hid
      rcases List.mem_cons.mp ho with rfl | ho
      · exact Nat.lt_of_lt_of_le (hgrown.2.2 id hid) hmono
      · exact hlast o ho id hid
  obtain ⟨hle, -, hcover⟩ := hfold ops [] (Nat.zero_le n) (fun _ h => h)
  apply Nat.le_antisymm hle
  cases n with
  | zero => exact Nat.zero_le _
  | succ n =>
    obtain ⟨op, hop, id, hid, heq⟩ := hused n (Nat.lt_succ_self n)
    have hlt := hcover op hop id hid
    rw [heq] at hlt
    exact hlt

/-! ## Blocks and files -/

/-- The context that is read back. -/
def readBackContext (ctx : Context) : Context where
  temps := ctx.temps.mapIdx readBack
  ops := ctx.ops
  labels := rebuildLabels ctx.ops
  nbGlobals := ctx.nbGlobals

theorem stored_readBackContext {ctx : Context} (h : AsLeft ctx) :
    stored (readBackContext ctx) = stored ctx := by
  have htemps : (ctx.temps.mapIdx readBack).map storedTemp = ctx.temps.map storedTemp := by
    apply List.ext_getElem?
    intro i
    simp only [List.getElem?_map, List.getElem?_mapIdx, Option.map_map]
    rfl
  simp only [stored, readBackContext, htemps, length_rebuildLabels h.label_exists h.label_used]

/-- The body of a file, as the writer puts it together. -/
def writeBody (ctx : Context) : List UInt8 :=
  (internNames ctx.temps).1.writeTo ++
    (writeU32 (UInt32.ofNat ctx.temps.length) ++
      ((ctx.temps.zip (internNames ctx.temps).2).flatMap (fun t => writeTemp t.1 t.2) ++
        (writeU32 (UInt32.ofNat ctx.ops.length) ++ (ctx.ops.flatMap writeOp ++ []))))

theorem serialize_eq (ctx : Context) : serialize ctx = magic ++ (writeU16 version ++
    (writeU16 0 ++ (writeU32 ctx.nbGlobals ++ (writeU32 (UInt32.ofNat ctx.labels.length) ++
      (writeU32 1 ++ (writeBody ctx ++ [])))))) := by
  simp only [serialize, writeBody, List.append_assoc, List.append_nil]

theorem reads_deserializeOneTb {ctx : Context} (h : AsLeft ctx) :
    Reads (deserializeOneTb ctx.nbGlobals) (writeBody ctx) (readBackContext ctx) := by
  have hinterned := interned_internNames ctx.temps h.nbTemps
  obtain ⟨hlen, hnamed⟩ := List.forall₂_iff_zip.mp hinterned.indices
  have hnames : ∀ s ∈ (internNames ctx.temps).1.strings, s.utf8ByteSize < 65536 := by
    intro s hs
    obtain ⟨t, ht, hname⟩ := hinterned.strings s hs
    exact h.name t ht s hname
  have hcount : (internNames ctx.temps).1.strings.length < 2 ^ 32 :=
    Nat.lt_of_le_of_lt hinterned.count h.nbTemps
  -- the temps are read with the indices of their names beside them
  have hziplen : (ctx.temps.zip (internNames ctx.temps).2).length = ctx.temps.length := by
    rw [List.length_zip, ← hlen, Nat.min_self]
  have hfst : (ctx.temps.zip (internNames ctx.temps).2).mapIdx (fun i t => readBack i t.1) =
      ctx.temps.mapIdx readBack := by
    have hmap : (ctx.temps.zip (internNames ctx.temps).2).map Prod.fst = ctx.temps :=
      List.map_fst_zip (Nat.le_of_eq hlen)
    apply List.ext_getElem?
    intro i
    rw [List.getElem?_mapIdx, List.getElem?_mapIdx]
    conv_rhs => rw [← hmap, List.getElem?_map, Option.map_map]
    rfl
  have htemps : Reads ((List.range ctx.temps.length).mapM
      (readTemp (internNames ctx.temps).1.strings))
      ((ctx.temps.zip (internNames ctx.temps).2).flatMap fun t => writeTemp t.1 t.2)
      (ctx.temps.mapIdx readBack) := by
    rw [← hfst, ← hziplen]
    apply reads_mapM_range
    intro i t ht
    have hmem := List.mem_of_getElem? ht
    have ht₁ := (List.of_mem_zip hmem).1
    exact reads_readTemp h.nbTemps (hnamed hmem) (h.reg t.1 ht₁) (h.base t.1 ht₁) i
  have hops : Reads ((List.range ctx.ops.length).mapM readOp) (ctx.ops.flatMap writeOp)
      ctx.ops := by
    apply reads_mapM_self
    intro i op hop
    exact reads_readOp (h.idx i op hop) (h.unused op (List.mem_of_getElem? hop))
  apply Reads.bind (reads_readStringTable hcount hnames)
  apply Reads.bind (reads_readU32 _)
  rw [toNat_ofNat_index h.nbTemps]
  apply Reads.bind htemps
  apply Reads.bind (reads_readU32 _)
  rw [toNat_ofNat_index h.nbOps]
  apply Reads.bind hops
  exact Reads.pure _

theorem reads_readFile {ctx : Context} (h : AsLeft ctx) :
    Reads readFile (writeU16 version ++ (writeU16 0 ++ (writeU32 ctx.nbGlobals ++
      (writeU32 (UInt32.ofNat ctx.labels.length) ++ (writeU32 1 ++ (writeBody ctx ++ []))))))
      [readBackContext ctx] := by
  apply Reads.bind (reads_readU16 (v := version) (by decide))
  rw [if_neg (fun hne => hne rfl)]
  apply Reads.bind (reads_readU16 (v := 0) (by decide))
  apply Reads.bind (reads_readU32 _)
  apply Reads.bind (reads_readU32 _)
  apply Reads.bind (reads_readU32 _)
  show Reads ((List.range 1).mapM fun _ => deserializeOneTb ctx.nbGlobals) _ _
  rw [List.range_one, List.mapM_cons]
  apply Reads.bind (reads_deserializeOneTb h)
  exact Reads.pure _

/-- The files of a list of contexts, with as much fuel as there are files and one more. -/
theorem deserializeLoop_files {ctxs : List Context} (h : ∀ ctx ∈ ctxs, AsLeft ctx) {fuel : Nat}
    (hfuel : ctxs.length < fuel) :
    deserializeLoop fuel (ctxs.flatMap serialize) = .ok (ctxs.map readBackContext) := by
  induction ctxs generalizing fuel with
  | nil =>
    obtain ⟨fuel, rfl⟩ := Nat.exists_eq_succ_of_ne_zero (Nat.ne_of_gt hfuel)
    rfl
  | cons ctx ctxs ih =>
    obtain ⟨fuel, rfl⟩ := Nat.exists_eq_succ_of_ne_zero (Nat.ne_of_gt (Nat.zero_lt_of_lt hfuel))
    rw [List.length_cons] at hfuel
    have hmagic := reads_readBytes magic
    have hfile := reads_readFile (h ctx List.mem_cons_self) (ctxs.flatMap serialize)
    have hrest := ih (fun c hc => h c (List.mem_cons_of_mem ctx hc)) (Nat.lt_of_succ_lt_succ hfuel)
    have hread := hmagic (writeU16 version ++ (writeU16 0 ++ (writeU32 ctx.nbGlobals ++
      (writeU32 (UInt32.ofNat ctx.labels.length) ++ (writeU32 1 ++ (writeBody ctx ++ []))))) ++
      ctxs.flatMap serialize)
    rw [List.flatMap_cons, serialize_eq, List.append_assoc, deserializeLoop,
      show readBytes 4 _ = _ from hread]
    dsimp only
    rw [if_neg (fun hne => hne rfl), hfile]
    show (deserializeLoop fuel (ctxs.flatMap serialize) >>= fun more =>
      Except.ok ([readBackContext ctx] ++ more)) = _
    rw [hrest]
    rfl

/-! ## Fuel -/

theorem shrinks_u8ToKind (v : UInt8) : (u8ToKind v).Shrinks := by
  unfold u8ToKind
  split <;> first | exact .pure _ | exact .fail _

theorem shrinks_u8ToType (v : UInt8) : (u8ToType v).Shrinks := by
  unfold u8ToType
  split <;> first | exact .pure _ | exact .fail _

theorem shrinks_u8ToOpcode (v : UInt8) : (u8ToOpcode v).Shrinks := by
  unfold u8ToOpcode
  split <;> first | exact .pure _ | exact .fail _

theorem shrinks_readU8 : readU8.Shrinks := (shrinks_readLe _ 1).map _

theorem shrinks_readU32 : readU32.Shrinks := (shrinks_readLe _ 4).map _

theorem shrinks_readU64 : readU64.Shrinks := (shrinks_readLe _ 8).map _

theorem shrinks_readString : readString.Shrinks := by
  apply (shrinks_readLe _ 2).bind
  intro len
  apply (shrinks_readExact _ len).bind
  intro buf
  split <;> first | exact .pure _ | exact .fail _

theorem shrinks_readTemp (strtab : List String) (i : Nat) : (readTemp strtab i).Shrinks := by
  apply shrinks_readU8.bind fun v => (shrinks_u8ToKind v).bind fun kind => ?_
  apply shrinks_readU8.bind fun v => (shrinks_u8ToType v).bind fun ty => ?_
  apply shrinks_readU8.bind fun v => (shrinks_u8ToType v).bind fun baseType => ?_
  apply shrinks_readU8.bind fun _ => shrinks_readU64.bind fun _ => shrinks_readU32.bind fun _ => ?_
  apply shrinks_readU64.bind fun _ => shrinks_readU32.bind fun nameIdx => ?_
  apply Reader.Shrinks.bind _ fun _ => Reader.Shrinks.pure _
  unfold lookupName
  split
  · exact .pure _
  · split <;> first | exact .pure _ | exact .fail _

theorem shrinks_readOp (i : Nat) : (readOp i).Shrinks := by
  apply shrinks_readU8.bind fun v => (shrinks_u8ToOpcode v).bind fun opc => ?_
  apply shrinks_readU8.bind fun v => (shrinks_u8ToType v).bind fun opType => ?_
  apply shrinks_readU8.bind fun _ => shrinks_readU8.bind fun _ => shrinks_readU8.bind fun nargs => ?_
  apply (shrinks_readExact _ 3).bind fun _ => ?_
  apply (shrinks_mapM (fun _ => shrinks_readU32) _).bind
  exact fun _ => Reader.Shrinks.pure _

theorem shrinks_readFile : readFile.Shrinks := by
  have hblock : ∀ nbGlobals, (deserializeOneTb nbGlobals).Shrinks := by
    intro nbGlobals
    apply Reader.Shrinks.bind
      (shrinks_readU32.bind fun _ => shrinks_mapM (fun _ => shrinks_readString) _)
    intro strtab
    apply shrinks_readU32.bind fun _ => (shrinks_mapM (shrinks_readTemp strtab) _).bind fun _ => ?_
    apply shrinks_readU32.bind fun _ => (shrinks_mapM shrinks_readOp _).bind fun _ => ?_
    exact Reader.Shrinks.pure _
  apply (shrinks_readLe _ 2).bind
  intro v
  split
  · exact .fail _
  · apply (shrinks_readLe _ 2).bind fun _ => shrinks_readU32.bind fun _ => ?_
    apply shrinks_readU32.bind fun _ => shrinks_readU32.bind fun _ => ?_
    exact shrinks_mapM (fun _ => hblock _) _

/-- More fuel than there are bytes changes nothing, so the loop of the source ends and gives the
result of the model. -/
theorem deserializeLoop_fuel (input : List UInt8) {fuel : Nat} (hfuel : input.length < fuel) :
    deserializeLoop fuel input = deserialize input := by
  -- any two amounts of fuel beyond the length agree
  suffices hall : ∀ n fuel (input : List UInt8), input.length < n → input.length < fuel →
      deserializeLoop fuel input = deserializeLoop n input from
    hall (input.length + 1) fuel input (Nat.lt_succ_self _) hfuel
  intro n
  induction n with
  | zero => exact fun fuel input hn => absurd hn (Nat.not_lt_zero _)
  | succ n ih =>
    intro fuel input hn hfuel
    obtain ⟨fuel, rfl⟩ := Nat.exists_eq_succ_of_ne_zero (Nat.ne_of_gt (Nat.zero_lt_of_lt hfuel))
    rw [Nat.succ_eq_add_one, deserializeLoop, deserializeLoop]
    cases hmagic : readBytes 4 input with
    | error e => cases e <;> rfl
    | ok s =>
      obtain ⟨m, rest⟩ := s
      -- the magic number is four bytes shorter
      have hshort : rest.length < input.length := by
        rw [readBytes, readExact] at hmagic
        split at hmagic
        · cases hmagic
        · rename_i hlen
          injection hmagic with hmagic
          injection hmagic with _ hmagic
          rw [← hmagic, List.length_drop]
          omega
      dsimp only
      split
      · rfl
      · cases hfile : readFile rest with
        | error e => rfl
        | ok s =>
          obtain ⟨contexts, rest'⟩ := s
          have hle := shrinks_readFile rest contexts rest' hfile
          show (deserializeLoop fuel rest' >>= _) = (deserializeLoop n rest' >>= _)
          rw [ih fuel rest' (by omega) (by omega)]

/-! ## The round trip -/

theorem length_serialize_pos (ctx : Context) : 0 < (serialize ctx).length := by
  rw [serialize_eq, List.length_append]
  exact Nat.add_pos_left (by decide) _

/-- Reading the contexts that were written one after another gives them back. -/
theorem deserialize_serialize (ctxs : List Context) (h : ∀ ctx ∈ ctxs, AsLeft ctx) :
    (deserialize (ctxs.flatMap serialize)).map (List.map stored) = .ok (ctxs.map stored) := by
  have hlen : ctxs.length ≤ (ctxs.flatMap serialize).length := by
    clear h
    induction ctxs with
    | nil => exact Nat.le_refl 0
    | cons ctx ctxs ih =>
      have hpos := length_serialize_pos ctx
      rw [List.flatMap_cons, List.length_append, List.length_cons]
      omega
  rw [deserialize, deserializeLoop_files h (Nat.lt_succ_of_le hlen)]
  show Except.ok ((ctxs.map readBackContext).map stored) = _
  rw [List.map_map]
  congr 1
  apply List.map_congr_left
  intro ctx hctx
  exact stored_readBackContext (h ctx hctx)

/-- A block with `env`, a global, a constant, and a branch back to its only label. -/
def demoBlock : Context where
  temps := [
    ⟨0, .i64, .i64, .fixed, .reg, some 5, false, false, 0, none, 0, some "env"⟩,
    ⟨1, .i64, .i64, .global, .mem, none, true, true, 0, some 0, 8, some "x1"⟩,
    ⟨2, .i64, .i64, .const, .const, none, false, false, 42, none, 0, none⟩]
  ops := [
    ⟨0, .setLabel, .i64, 0, 0, #v[0, 0, 0, 0, 0, 0, 0, 0, 0, 0], 1⟩,
    ⟨1, .add, .i64, 0, 0, #v[1, 1, 2, 0, 0, 0, 0, 0, 0, 0], 3⟩,
    ⟨2, .br, .i64, 0, 0, #v[0, 0, 0, 0, 0, 0, 0, 0, 0, 0], 1⟩]
  labels := [⟨0⟩]
  nbGlobals := 2

/-- What holds of all elements, as a computation says. -/
theorem forall_mem_option {α β : Type} {l : List α} {f : α → Option β} {p : β → Prop}
    [DecidablePred p] (h : (l.all fun a => (f a).all fun b => p b) = true) :
    ∀ a ∈ l, ∀ b ∈ f a, p b := by
  intro a ha b hb
  have hall := List.all_eq_true.mp h a ha
  exact of_decide_eq_true ((Option.all_eq_true _ _).mp hall b hb)

theorem asLeft_demoBlock : AsLeft demoBlock where
  nbTemps := by decide
  nbOps := by decide
  reg := forall_mem_option (by decide)
  base := forall_mem_option (by decide)
  name := by decide
  idx i op h := by
    match i, h with
    | 0, h | 1, h | 2, h => cases h; rfl
  nargs := by decide
  unused := by decide
  label_exists := forall_mem_option (by decide)
  label_used := by decide

theorem deserialize_serialize_demoBlock :
    (deserialize ([demoBlock, demoBlock].flatMap serialize)).map (List.map stored) =
      .ok ([demoBlock, demoBlock].map stored) := by
  apply deserialize_serialize
  intro ctx hctx
  have heq : ctx = demoBlock := by simpa using hctx
  rw [heq]
  exact asLeft_demoBlock

end TcgRs.Analysis.Serialization
