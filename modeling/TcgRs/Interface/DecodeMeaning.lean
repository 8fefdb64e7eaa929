import TcgRs.Interface.EmittedCode

/-!
# What a decode file means

The call that a parsed decode file asks for on an instruction word, in integers.
-/

set_option autoImplicit false

namespace TcgRs.Interface.DecodeMeaning

open TcgRs.Model.Decode TcgRs.Interface.EmittedCode

/-! ## Values of arguments -/

/-- The `len` bits of a word from bit `pos` on. -/
def bitsAt (insn pos len : Nat) : Nat := insn / 2 ^ pos % 2 ^ len

/-- The bits of the segments, the first segment most significant. -/
def concatBits (insn : Nat) (segs : List FieldSegment) : Nat :=
  segs.foldl (fun n s => n * 2 ^ s.len + bitsAt insn s.pos s.len) 0

def totalLen (segs : List FieldSegment) : Nat := (segs.map (·.len)).sum

/-- The concatenation, in two's complement exactly if the first segment is signed. -/
def segmentsValue (insn : Nat) (segs : List FieldSegment) : Int :=
  if segs.head?.any (·.signed) then (concatBits insn segs : Int).bmod (2 ^ totalLen segs)
  else concatBits insn segs

/-- The `!function` of a field. -/
def transform (func : Option String) (v : Int) : Int :=
  match func with
  | some "ex_shift_1" => v * 2 ^ 1
  | some "ex_shift_2" => v * 2 ^ 2
  | some "ex_shift_3" => v * 2 ^ 3
  | some "ex_shift_4" => v * 2 ^ 4
  | some "ex_shift_12" => v * 2 ^ 12
  | some "ex_rvc_register" => v + 8
  | some "ex_sreg_register" => [8, 9, 18, 19, 20, 21, 22, 23].getD (v % 8).toNat 0
  | _ => v

def fieldValue (insn : Nat) (f : Field) : Int := transform f.func (segmentsValue insn f.segments)

def mappingValue (fields : BTreeMap Field) (insn : Nat) : FieldMapping → Int
  | .fieldRef r => (fields.get r).elim 0 (fieldValue insn)
  | .inline pos len _ => bitsAt insn pos len
  | .const c => c

/-- An argument that is not mapped is 0. -/
def argValue (fields : BTreeMap Field) (insn : Nat) (p : Pattern) (af : String) : Int :=
  (p.fieldMap.get af).elim 0 (mappingValue fields insn)

/-! ## The decoder -/

def Matches {w : Nat} (insn : BitVec w) (p : Pattern) : Prop :=
  insn.setWidth 32 &&& p.fixedmask = p.fixedbits

instance {w : Nat} (insn : BitVec w) (p : Pattern) : Decidable (Matches insn p) :=
  inferInstanceAs (Decidable (_ = _))

/-- The call of the first pattern in file order that the word matches. -/
def meaning {w : Nat} (parsed : Parsed) (insn : BitVec w) : Option Call :=
  (parsed.patterns.find? fun p => Matches insn p).map fun p =>
    (p.name, (argFields parsed.argsets p).map fun af =>
      (af, BitVec.ofInt 64 (argValue parsed.fields insn.toNat p af)))

/-- The generator writes a decoder that compiles and makes the calls that the file asks for. -/
def DecodesAs (parsed : Parsed) (width : Nat) : Prop :=
  ∃ code, emitDecoder parsed width = some code ∧ Compiles code ∧
    ∀ insn : BitVec width, run code insn = meaning parsed insn

/-! ## Fields inside the word -/

def SegmentInside (width : Nat) (s : FieldSegment) : Prop :=
  s.pos + s.len ≤ width ∧ 1 ≤ s.len ∧ s.len ≤ 31

instance (width : Nat) (s : FieldSegment) : Decidable (SegmentInside width s) :=
  inferInstanceAs (Decidable (_ ∧ _ ∧ _))

/-- The inline fields of a bit pattern, each by its lowest bit and its length; the bits up to
`bitPos` are left for the tokens. -/
def inlinePlaces : List Text → Int → List (Int × Nat)
  | [], _ => []
  | tok :: toks, bitPos =>
    if isBitToken tok then inlinePlaces toks (bitPos - tok.length)
    else match splitColon tok with
      | none => []
      | some (_, rest) => match parseU32 rest with
        | none => []
        | some len => (bitPos - len + 1, len) :: inlinePlaces toks (bitPos - len)

def InlineInside (width : Nat) (tokens : List Text) : Prop :=
  ∀ e ∈ inlinePlaces tokens (width - 1), 0 ≤ e.1 ∧ e.1 + e.2 ≤ width ∧ 1 ≤ e.2 ∧ e.2 ≤ 31

instance (width : Nat) (tokens : List Text) : Decidable (InlineInside width tokens) :=
  inferInstanceAs (Decidable (∀ e ∈ _, _))

/-- The bit tokens of a format or pattern. -/
def bitTokens (isAlphanumeric : Char → Bool) (line : Text) : List Text :=
  let tokens := (splitWhitespace line).tail
  tokens.take (countBitTokens isAlphanumeric tokens)

/-- The logical lines of a file that are formats or patterns. -/
def patternLines (input : Text) : List Text :=
  ((lines (mergeContinuations input)).map fun raw => trim (raw.takeWhile (· != '#'))).filter
    fun line => match line.head? with
      | none => false
      | some c => c ∉ ['%', '&', '{', '}', '[', ']']

/-- Every field segment and every inline field lies inside the word. -/
def InsideWord (isAlphanumeric : Char → Bool) (input : Text) (parsed : Parsed) (width : Nat) :
    Prop :=
  (∀ f ∈ parsed.fields.values, ∀ s ∈ f.segments, SegmentInside width s) ∧
    ∀ line ∈ patternLines input, InlineInside width (bitTokens isAlphanumeric line)

/-! ## Fields that can be extracted -/

/-- Every field has a segment, and every field that an argument refers to is defined. -/
def FieldsComplete (parsed : Parsed) : Prop :=
  (∀ f ∈ parsed.fields.values, f.segments ≠ []) ∧
    ∀ p ∈ parsed.patterns, ∀ af ∈ argFields parsed.argsets p, ∀ r,
      p.fieldMap.get af = some (.fieldRef r) → (parsed.fields.get r).isSome

end TcgRs.Interface.DecodeMeaning
