import TcgRs.Library.ByteReader
import TcgRs.Model.Ir.Context

/-!
# The binary IR format

`core/src/serialize.rs`: the `.tcgir` format, in little-endian bytes.  A file is a header and, for
each translation block, a string table, the temps and the ops; several files may stand one after
another.  Writing goes to a vector of bytes and cannot fail.

Temps and ops have here the fields that the format stores, as the machine integers of the source,
and those that reading sets.  The liveness fields of an op, which reading leaves at their defaults,
are left out.
-/

set_option autoImplicit false

namespace TcgRs.Model.Serialize

open Ir Library

/-! ## Contexts -/

/-- `TempIdx` is a `u32` and a host register a `u8`; `memOffset` is the two's complement of an
`i64`. -/
structure Temp where
  idx : UInt32
  ty : IrType
  baseType : IrType
  kind : TempKind
  valType : TempVal
  reg : Option UInt8
  memCoherent : Bool
  memAllocated : Bool
  val : BitVec 64
  memBase : Option UInt32
  memOffset : BitVec 64
  name : Option String
  deriving DecidableEq, Repr

/-- `MAX_OP_ARGS`. -/
def maxOpArgs : Nat := 10

structure Op where
  idx : UInt32
  opc : Opcode
  opType : IrType
  param1 : UInt8
  param2 : UInt8
  args : Vector UInt32 maxOpArgs
  nargs : UInt8
  deriving DecidableEq, Repr

/-- `Label::new`: a label that is neither placed nor used yet. -/
structure Label where
  id : UInt32
  deriving DecidableEq, Repr

structure Context where
  temps : List Temp
  ops : List Op
  labels : List Label
  nbGlobals : UInt32
  deriving DecidableEq, Repr

/-! ## Errors -/

/-- An error of the reader: the end of the input, bad data, or a panic of the source. -/
inductive IoError where
  | unexpectedEof
  | invalidData (msg : String)
  | panic
  deriving DecidableEq, Repr

abbrev Read (α : Type) := Reader IoError α

def err {α : Type} (msg : String) : Read α := Reader.fail (.invalidData msg)

/-! ## Read helpers -/

def readBytes (n : Nat) : Read (List UInt8) := readExact .unexpectedEof n

def readU8 : Read UInt8 := UInt8.ofNat <$> readLe .unexpectedEof 1

def readU16 : Read Nat := readLe .unexpectedEof 2

def readU32 : Read UInt32 := UInt32.ofNat <$> readLe .unexpectedEof 4

def readU64 : Read (BitVec 64) := BitVec.ofNat 64 <$> readLe .unexpectedEof 8

def readI64 : Read (BitVec 64) := BitVec.ofNat 64 <$> readLe .unexpectedEof 8

/-! ## Write helpers -/

def writeU8 (v : UInt8) : List UInt8 := toLeBytes 1 v.toNat

/-- The argument is cast to `u16`. -/
def writeU16 (v : Nat) : List UInt8 := toLeBytes 2 v

def writeU32 (v : UInt32) : List UInt8 := toLeBytes 4 v.toNat

def writeU64 (v : BitVec 64) : List UInt8 := toLeBytes 8 v.toNat

def writeI64 (v : BitVec 64) : List UInt8 := toLeBytes 8 v.toNat

/-! ## Enumerations -/

/-- `kind as u8`. -/
def kindToU8 (kind : TempKind) : UInt8 := UInt8.ofNat kind.ctorIdx

def u8ToKind (v : UInt8) : Read TempKind :=
  match v with
  | 0 => pure .ebb
  | 1 => pure .tb
  | 2 => pure .global
  | 3 => pure .fixed
  | 4 => pure .const
  | _ => err "invalid TempKind"

/-- `ty as u8`. -/
def typeToU8 (ty : IrType) : UInt8 := UInt8.ofNat ty.ctorIdx

def u8ToType (v : UInt8) : Read IrType :=
  match v with
  | 0 => pure .i32
  | 1 => pure .i64
  | 2 => pure .i128
  | 3 => pure .v64
  | 4 => pure .v128
  | 5 => pure .v256
  | _ => err "invalid Type"

/-- `Opcode::Count`, the number of opcodes. -/
def opcodeCount : Nat := Opcode.cmpselVec.ctorIdx + 1

/-- `opc as u8`. -/
def opcodeToU8 (opc : Opcode) : UInt8 := UInt8.ofNat opc.ctorIdx

/-- The opcode is reinterpreted from its number. -/
def u8ToOpcode (v : UInt8) : Read Opcode :=
  if v.toNat < opcodeCount then pure (Opcode.ofNat v.toNat) else err "invalid Opcode"

/-! ## The string table -/

/-- Names in the order in which they were first interned, and the index of each. -/
structure StringTable where
  strings : List String
  map : String → Option UInt32

namespace StringTable

def new : StringTable := ⟨[], fun _ => none⟩

def intern (table : StringTable) (s : String) : StringTable × UInt32 :=
  match table.map s with
  | some idx => (table, idx)
  | none =>
    let idx := UInt32.ofNat table.strings.length
    (⟨table.strings ++ [s], Function.update table.map s (some idx)⟩, idx)

def writeString (s : String) : List UInt8 :=
  let bytes := s.toUTF8.data.toList
  writeU16 bytes.length ++ bytes

def writeTo (table : StringTable) : List UInt8 :=
  writeU32 (UInt32.ofNat table.strings.length) ++ table.strings.flatMap writeString

end StringTable

/-- The decoder's own text about what is wrong with the bytes is not part of the message here. -/
def readString : Read String := do
  let len ← readU16
  let buf ← readBytes len
  match String.fromUTF8? ⟨buf.toArray⟩ with
  | some s => pure s
  | none => err "invalid UTF-8"

def readStringTable : Read (List String) := do
  let count ← readU32
  (List.range count.toNat).mapM fun _ => readString

/-! ## Serialize -/

/-- What a missing base or name is stored as. -/
def noIndex : UInt32 := 0xFFFFFFFF

/-- What a missing register is stored as. -/
def noReg : UInt8 := 0xFF

/-- Intern the name of one temp, and note its index. -/
def internName (s : StringTable × List UInt32) (t : Temp) : StringTable × List UInt32 :=
  match t.name with
  | some name =>
    let (table, idx) := s.1.intern name
    (table, s.2 ++ [idx])
  | none => (s.1, s.2 ++ [noIndex])

def internNames (temps : List Temp) : StringTable × List UInt32 :=
  temps.foldl internName (StringTable.new, [])

def writeTemp (t : Temp) (nameIdx : UInt32) : List UInt8 :=
  writeU8 (kindToU8 t.kind) ++ writeU8 (typeToU8 t.ty) ++ writeU8 (typeToU8 t.baseType) ++
    writeU8 (t.reg.getD noReg) ++ writeU64 t.val ++ writeU32 (t.memBase.getD noIndex) ++
    writeI64 t.memOffset ++ writeU32 nameIdx

/-- An op has at most `maxOpArgs` arguments; the source would panic on more. -/
def writeOp (op : Op) : List UInt8 :=
  writeU8 (opcodeToU8 op.opc) ++ writeU8 (typeToU8 op.opType) ++ writeU8 op.param1 ++
    writeU8 op.param2 ++ writeU8 op.nargs ++ [0, 0, 0] ++
    (op.args.toList.take op.nargs.toNat).flatMap writeU32

/-- `b"TCIR"`. -/
def magic : List UInt8 := [0x54, 0x43, 0x49, 0x52]

def version : Nat := 1

/-- Serialize a single block's context. -/
def serialize (ctx : Context) : List UInt8 :=
  let (strtab, nameIndices) := internNames ctx.temps
  magic ++ writeU16 version ++ writeU16 0 ++ writeU32 ctx.nbGlobals ++
    writeU32 (UInt32.ofNat ctx.labels.length) ++ writeU32 1 ++
    strtab.writeTo ++
    writeU32 (UInt32.ofNat ctx.temps.length) ++
    (ctx.temps.zip nameIndices).flatMap (fun t => writeTemp t.1 t.2) ++
    writeU32 (UInt32.ofNat ctx.ops.length) ++ ctx.ops.flatMap writeOp

/-! ## Deserialize -/

/-- Where the value of a temp of each kind is before the first op. -/
def initialVal : TempKind → TempVal
  | .const => .const
  | .fixed => .reg
  | .global => .mem
  | _ => .dead

/-- Look up a name; an index beyond the table panics. -/
def lookupName (strtab : List String) (nameIdx : UInt32) : Read (Option String) :=
  if nameIdx = noIndex then pure none
  else match strtab[nameIdx.toNat]? with
    | some name => pure (some name)
    | none => Reader.fail .panic

def readTemp (strtab : List String) (i : Nat) : Read Temp := do
  let kind ← (← readU8) |> u8ToKind
  let ty ← (← readU8) |> u8ToType
  let baseType ← (← readU8) |> u8ToType
  let regByte ← readU8
  let val ← readU64
  let memBaseRaw ← readU32
  let memOffset ← readI64
  let nameIdx ← readU32
  let name ← lookupName strtab nameIdx
  pure
    { idx := UInt32.ofNat i, ty, baseType, kind, valType := initialVal kind
      reg := if regByte = noReg then none else some regByte
      memCoherent := decide (kind = .global), memAllocated := decide (kind = .global), val
      memBase := if memBaseRaw = noIndex then none else some memBaseRaw
      memOffset, name }

/-- At most `maxOpArgs` arguments are read, whatever `nargs` says. -/
def readOp (i : Nat) : Read Op := do
  let opc ← (← readU8) |> u8ToOpcode
  let opType ← (← readU8) |> u8ToType
  let param1 ← readU8
  let param2 ← readU8
  let nargs ← readU8
  let _ ← readBytes 3
  let args ← (List.range (min nargs.toNat maxOpArgs)).mapM fun _ => readU32
  pure { idx := UInt32.ofNat i, opc, opType, param1, param2, nargs
         args := Vector.ofFn fun k => args.getD k 0 }

/-- `while labels.len() <= id { labels.push(..) }`. -/
def growLabels (labels : List Label) (id : UInt32) : List Label :=
  labels ++ (List.range' labels.length (id.toNat + 1 - labels.length)).map fun n =>
    ⟨UInt32.ofNat n⟩

/-- The label that an op places or branches to. -/
def labelRef (op : Op) : Option UInt32 :=
  if op.opc = .setLabel then some (op.args.toList.getD 0 0)
  else if op.opc = .br ∨ op.opc = .brCond then
    let d := op.opc.opDef
    some (op.args.toList.getD (d.nbOargs + d.nbIargs + d.nbCargs - 1) 0)
  else none

/-- The labels that the ops refer to, and all with smaller ids. -/
def rebuildLabels (ops : List Op) : List Label :=
  ops.foldl (fun labels op => (labelRef op).elim labels (growLabels labels)) []

def deserializeOneTb (nbGlobals : UInt32) : Read Context := do
  let strtab ← readStringTable
  let tempCount ← readU32
  let temps ← (List.range tempCount.toNat).mapM (readTemp strtab)
  let opCount ← readU32
  let ops ← (List.range opCount.toNat).mapM readOp
  pure ⟨temps, ops, rebuildLabels ops, nbGlobals⟩

/-- What follows the magic number of a file. -/
def readFile : Read (List Context) := do
  let v ← readU16
  if v ≠ version then err "unsupported version"
  else do
    let _flags ← readU16
    let nbGlobals ← readU32
    let _nbLabels ← readU32
    let tbCount ← readU32
    (List.range tbCount.toNat).mapM fun _ => deserializeOneTb nbGlobals

/-- One file after another; the end of the input in place of a magic number is the end.  Every
round takes at least the four bytes of its magic number, so the fuel, one more than the number of
bytes, does not run out. -/
def deserializeLoop : Nat → List UInt8 → Except IoError (List Context)
  | 0, _ => .error .panic
  | fuel + 1, input =>
    match readBytes 4 input with
    | .error .unexpectedEof => .ok []
    | .error e => .error e
    | .ok (m, rest) =>
      if m ≠ magic then .error (.invalidData "bad magic")
      else do
        let (contexts, rest) ← readFile rest
        let more ← deserializeLoop fuel rest
        return contexts ++ more

def deserialize (input : List UInt8) : Except IoError (List Context) :=
  deserializeLoop (input.length + 1) input

end TcgRs.Model.Serialize
