import Mathlib.Data.BitVec
import Mathlib.Data.List.Basic

/-!
# Reading a decode file

The parser of `decode/src/lib.rs`: fields, argument sets, formats and instruction patterns of a
`.decode` file.  Text is a list of characters.  A `BTreeMap` is a list of its entries in the order of
the keys.  What Unicode calls alphanumeric is a parameter.
-/

set_option autoImplicit false

namespace TcgRs.Model.Decode

/-- Text, while it is being taken apart. -/
abbrev Text := List Char

/-! ## Ordered maps -/

/-- The entries of a `BTreeMap`, in the order of the keys. -/
abbrev BTreeMap (V : Type) := List (String × V)

namespace BTreeMap

variable {V : Type}

def get (m : BTreeMap V) (k : String) : Option V := m.lookup k

def insert : BTreeMap V → String → V → BTreeMap V
  | [], k, v => [(k, v)]
  | (k', v') :: m, k, v =>
    if k < k' then (k, v) :: (k', v') :: m
    else if k = k' then (k, v) :: m
    else (k', v') :: insert m k v

/-- `entry(k).or_insert(v)`. -/
def orInsert (m : BTreeMap V) (k : String) (v : V) : BTreeMap V :=
  if (m.get k).isSome then m else m.insert k v

def extend (m extra : BTreeMap V) : BTreeMap V := extra.foldl (fun m e => m.insert e.1 e.2) m

def keys (m : BTreeMap V) : List String := m.map Prod.fst

def values (m : BTreeMap V) : List V := m.map Prod.snd

end BTreeMap

/-! ## Data structures -/

structure FieldSegment where
  pos : Nat
  len : Nat
  signed : Bool
  deriving DecidableEq, Repr

structure Field where
  name : String
  segments : List FieldSegment
  func : Option String
  deriving DecidableEq, Repr

structure ArgSet where
  name : String
  fields : List String
  isExtern : Bool
  deriving DecidableEq, Repr

inductive FieldMapping where
  | fieldRef (name : String)
  | inline (pos len : Nat) (signed : Bool)
  | const (c : Int)
  deriving DecidableEq, Repr

structure Format where
  name : String
  fixedbits : BitVec 32
  fixedmask : BitVec 32
  argsName : String
  fieldMap : BTreeMap FieldMapping
  deriving DecidableEq, Repr

structure Pattern where
  name : String
  fixedbits : BitVec 32
  fixedmask : BitVec 32
  argsName : String
  fieldMap : BTreeMap FieldMapping
  deriving DecidableEq, Repr

structure Parsed where
  fields : BTreeMap Field
  argsets : BTreeMap ArgSet
  patterns : List Pattern
  deriving DecidableEq, Repr

/-! ## Text -/

/-- Unicode's `White_Space`; the first line is its ASCII part. -/
def isWhitespace (c : Char) : Bool :=
  let n := c.toNat
  if n < 0x80 then n == 0x20 || (n ≤ 13 && 9 ≤ n)
  else n == 0x85 || n == 0xA0 || n == 0x1680 || (0x2000 ≤ n && n ≤ 0x200A) || n == 0x2028 ||
    n == 0x2029 || n == 0x202F || n == 0x205F || n == 0x3000

def splitWhitespace (s : Text) : List Text :=
  (s.splitOnP isWhitespace).filter fun t => !t.isEmpty

def trim (s : Text) : Text :=
  ((s.dropWhile isWhitespace).reverse.dropWhile isWhitespace).reverse

/-- Remove the carriage return that ends a line. -/
def stripReturn (s : Text) : Text :=
  match s.reverse with
  | '\r' :: rest => rest.reverse
  | _ => s

/-- The lines of a text; the last one need not end in a line feed. -/
def lines (s : Text) : List Text :=
  match (s.splitOn '\n').reverse with
  | [] => []
  | last :: rest => (rest.map stripReturn).reverse ++ if last.isEmpty then [] else [last]

/-- A nonempty string of decimal digits. -/
def parseDigits (s : Text) : Option Nat :=
  if s.isEmpty || !s.all Char.isDigit then none
  else some (s.foldl (fun n c => 10 * n + (c.toNat - '0'.toNat)) 0)

/-- `str::parse::<u32>`. -/
def parseU32 (s : Text) : Option Nat := do
  let n ← parseDigits (match s with | '+' :: rest => rest | _ => s)
  if n < 2 ^ 32 then some n else none

/-- `str::parse::<i32>`. -/
def parseI32 (s : Text) : Option Int :=
  match s with
  | '-' :: rest => do
    let n ← parseDigits rest
    if n ≤ 2 ^ 31 then some (-n) else none
  | _ => do
    let n ← parseDigits (match s with | '+' :: rest => rest | _ => s)
    if n < 2 ^ 31 then some n else none

/-! ## Bit patterns -/

def isBitChar (c : Char) : Bool := c == '0' || c == '1' || c == '.' || c == '-'

def isBitToken (s : Text) : Bool := !s.isEmpty && s.all isBitChar

/-- The text before and after the first colon. -/
def splitColon (s : Text) : Option (Text × Text) :=
  match s.dropWhile (· != ':') with
  | [] => none
  | _ :: rest => some (s.takeWhile (· != ':'), rest)

variable (isAlphanumeric : Char → Bool)

def isInlineField (s : Text) : Bool :=
  match splitColon s with
  | some (name, rest) =>
    !name.isEmpty && name.all (fun c => isAlphanumeric c || c == '_') && !rest.isEmpty &&
      rest.all Char.isDigit
  | none => false

/-- The result of `parse_bit_tokens`, and the position of the next bit. -/
structure BitPattern where
  fixedbits : BitVec 32
  fixedmask : BitVec 32
  inlineFields : BTreeMap (Nat × Nat)
  bitPos : Int

/-- One character of a bit token. -/
def parseBit (width : Nat) (b : BitPattern) (c : Char) : Except String BitPattern :=
  if b.bitPos < 0 then .error s!"bit pattern exceeds {width} bits"
  else
    -- a shift count is taken modulo the width of the word
    let bit := 1#32 <<< (b.bitPos.toNat % 32)
    let b' := { b with bitPos := b.bitPos - 1 }
    if c == '1' then
      .ok { b' with fixedbits := b.fixedbits ||| bit, fixedmask := b.fixedmask ||| bit }
    else if c == '0' then .ok { b' with fixedmask := b.fixedmask ||| bit }
    else .ok b'

/-- The value of an `i32` after wrapping. -/
def wrapI32 (n : Int) : Int := (BitVec.ofInt 32 n).toInt

/-- An inline field `name:len`. -/
def parseInline (b : BitPattern) (tok : Text) : Except String BitPattern := do
  let some (name, rest) := splitColon tok | .ok b
  let some len := parseU32 rest
    | .error "bad inline field len: number too large to fit in target type"
  let pos := (BitVec.ofInt 32 (b.bitPos - len + 1)).toNat
  return { b with
    inlineFields := b.inlineFields.insert (String.ofList name) (pos, len)
    bitPos := wrapI32 (b.bitPos - len) }

/-- The loop over the tokens; it ends at the first that is no bit pattern. -/
def parseTokens (width : Nat) : List Text → BitPattern → Except String BitPattern
  | [], b => .ok b
  | tok :: toks, b =>
    if isBitToken tok then do
      let b ← tok.foldlM (parseBit width) b
      parseTokens width toks b
    else if isInlineField isAlphanumeric tok then do
      let b ← parseInline b tok
      parseTokens width toks b
    else .ok b

/-- The first bit is at `width as i32 - 1`. -/
def parseBitTokens (tokens : List Text) (width : Nat) : Except String BitPattern :=
  parseTokens isAlphanumeric width tokens ⟨0, 0, [], wrapI32 (width - 1)⟩

def countBitTokens (tokens : List Text) : Nat :=
  (tokens.takeWhile fun t => isBitToken t || isInlineField isAlphanumeric t).length

/-! ## Fields and argument sets -/

def parseFieldSegment (s : Text) : Except String FieldSegment := do
  let some (posStr, rest) := splitColon s | .error s!"bad segment: {String.ofList s}"
  let signed := rest.head? == some 's'
  let lenStr := if signed then rest.tail else rest
  let some pos := parseU32 posStr | .error s!"bad pos: {String.ofList posStr}"
  let some len := parseU32 lenStr | .error s!"bad len: {String.ofList lenStr}"
  return ⟨pos, len, signed⟩

def stripPrefix : Text → Text → Option Text
  | [], s => some s
  | _ :: _, [] => none
  | p :: ps, c :: cs => if p = c then stripPrefix ps cs else none

/-- One token after the name of a field. -/
def parseFieldToken (f : Field) (tok : Text) : Except String Field :=
  match stripPrefix "!function=".toList tok with
  | some func => .ok { f with func := some (String.ofList func) }
  | none => do
    let seg ← parseFieldSegment tok
    return { f with segments := f.segments ++ [seg] }

/-- `%name seg1 seg2 ... [!function=func]`. -/
def parseField (line : Text) : Except String Field :=
  let tokens := splitWhitespace line
  tokens.tail.foldlM parseFieldToken ⟨String.ofList (tokens.headD []).tail, [], none⟩

/-- `&name field1 field2 ... [!extern]`. -/
def parseArgset (line : Text) : ArgSet :=
  let tokens := splitWhitespace line
  let isExtern := tokens.getLast? == some "!extern".toList
  let fields := if isExtern then tokens.tail.dropLast else tokens.tail
  ⟨String.ofList (tokens.headD []).tail, fields.map String.ofList, isExtern⟩

/-! ## Formats and patterns -/

/-- One trailing attribute of a format or pattern. -/
def parseAttr (fields : BTreeMap Field) (s : String × BTreeMap FieldMapping) (tok : Text) :
    Except String (String × BTreeMap FieldMapping) :=
  match tok with
  | '&' :: a => .ok (String.ofList a, s.2)
  | '%' :: f => .ok (s.1, s.2.insert (String.ofList f) (.fieldRef (String.ofList f)))
  | _ =>
    if tok.contains '=' then
      let key := String.ofList (tok.takeWhile (· != '='))
      let val := (tok.dropWhile (· != '=')).tail
      match val with
      | '%' :: fref => .ok (s.1, s.2.insert key (.fieldRef (String.ofList fref)))
      | _ =>
        match parseI32 val with
        | some c => .ok (s.1, s.2.insert key (.const c))
        | none => .error s!"bad attr: {String.ofList tok}"
    else match tok with
      | '!' :: _ | '@' :: _ => .ok s
      | _ =>
        let name := String.ofList tok
        if (fields.get name).isSome then .ok (s.1, s.2.insert name (.fieldRef name)) else .ok s

def parseAttrs (tokens : List Text) (fields : BTreeMap Field) :
    Except String (String × BTreeMap FieldMapping) :=
  tokens.foldlM (parseAttr fields) ("", [])

/-- Add the inline fields of a bit pattern that are not mapped otherwise. -/
def mergeInline (m : BTreeMap FieldMapping) (inlineFields : BTreeMap (Nat × Nat)) :
    BTreeMap FieldMapping :=
  inlineFields.foldl (fun m e => m.orInsert e.1 (.inline e.2.1 e.2.2 false)) m

/-- `@name bit_tokens... &argset [mappings...]`. -/
def parseFormat (line : Text) (fields : BTreeMap Field) (width : Nat) :
    Except String (String × Format) := do
  let tokens := splitWhitespace line
  let name := String.ofList (tokens.headD []).tail
  let bitCount := countBitTokens isAlphanumeric tokens.tail
  let bp ← parseBitTokens isAlphanumeric (tokens.tail.take bitCount) width
  let (argsName, fieldMap) ← parseAttrs (tokens.tail.drop bitCount) fields
  return (name, ⟨name, bp.fixedbits, bp.fixedmask, argsName,
    mergeInline fieldMap bp.inlineFields⟩)

/-- The format that the attributes of a pattern refer to. -/
def findFormat (tokens : List Text) : Option String :=
  tokens.findSome? fun t => match t with
    | '@' :: name => some (String.ofList name)
    | _ => none

/-- A pattern, and the argument sets made up so far.  With a format, the pattern's own argument set
and inline fields are not used. -/
def parsePattern (line : Text) (formats : BTreeMap Format) (fields : BTreeMap Field)
    (autoArgs : BTreeMap ArgSet) (width : Nat) : Except String (Pattern × BTreeMap ArgSet) := do
  let tokens := splitWhitespace line
  let name := String.ofList (tokens.headD [])
  let bitCount := countBitTokens isAlphanumeric tokens.tail
  let bp ← parseBitTokens isAlphanumeric (tokens.tail.take bitCount) width
  let rest := tokens.tail.drop bitCount
  match findFormat rest with
  | some fname =>
    match formats.get fname with
    | none => .error s!"unknown format @{fname}"
    | some fmt => do
      let (_, extraMap) ← parseAttrs rest fields
      return (⟨name, bp.fixedbits ||| fmt.fixedbits, bp.fixedmask ||| fmt.fixedmask, fmt.argsName,
        fmt.fieldMap.extend extraMap⟩, autoArgs)
  | none => do
    let (an, fm) ← parseAttrs rest fields
    let fm := mergeInline fm bp.inlineFields
    if an = "" ∧ fm ≠ [] then
      let aname := s!"_auto_{name}"
      return (⟨name, bp.fixedbits, bp.fixedmask, aname, fm⟩,
        autoArgs.insert aname ⟨aname, fm.keys, false⟩)
    else return (⟨name, bp.fixedbits, bp.fixedmask, an, fm⟩, autoArgs)

/-! ## Files -/

/-- Append one line to the text so far, which is kept in reverse; a trailing backslash joins the
next line. -/
def mergeLine (s : Text × Bool) (line : Text) : Text × Bool :=
  let out :=
    if s.2 then (trim line).reverse ++ ' ' :: s.1
    else line.reverse ++ if s.1.isEmpty then [] else '\n' :: s.1
  match out with
  | '\\' :: rest => (rest.dropWhile (· == ' '), true)
  | _ => (out, false)

/-- Merge backslash-continuation lines into single logical lines. -/
def mergeContinuations (input : Text) : Text := ((lines input).foldl mergeLine ([], false)).1.reverse

/-- What the lines so far have defined. -/
structure ParseState where
  fields : BTreeMap Field
  argsets : BTreeMap ArgSet
  formats : BTreeMap Format
  patterns : List Pattern
  autoArgs : BTreeMap ArgSet

/-- One logical line. -/
def parseLine (width : Nat) (s : ParseState) (raw : Text) : Except String ParseState :=
  let line := trim (raw.takeWhile (· != '#'))
  match line with
  | [] => .ok s
  | '%' :: _ => do
    let f ← parseField line
    return { s with fields := s.fields.insert f.name f }
  | '&' :: _ =>
    let a := parseArgset line
    .ok { s with argsets := s.argsets.insert a.name a }
  | '@' :: _ => do
    let (n, f) ← parseFormat isAlphanumeric line s.fields width
    return { s with formats := s.formats.insert n f }
  | '{' :: _ | '}' :: _ | '[' :: _ | ']' :: _ => .ok s
  | _ => do
    let (p, autoArgs) ← parsePattern isAlphanumeric line s.formats s.fields s.autoArgs width
    return { s with patterns := s.patterns ++ [p], autoArgs := autoArgs }

def parseWithWidth (input : Text) (width : Nat) : Except String Parsed := do
  let s ← (lines (mergeContinuations input)).foldlM (parseLine isAlphanumeric width)
    ⟨[], [], [], [], []⟩
  return ⟨s.fields, s.argsets.extend s.autoArgs, s.patterns⟩

end TcgRs.Model.Decode
