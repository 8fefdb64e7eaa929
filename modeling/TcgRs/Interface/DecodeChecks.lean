import TcgRs.Interface.DecodeMeaning

/-!
# Well-formed decode files

What a decode file has to satisfy, line by line: the bit tokens of a format or pattern fill the
word, the fixed bits of a pattern agree with those of its format, and every argument that a line
defines is bound to that definition.
-/

set_option autoImplicit false

namespace TcgRs.Interface.DecodeMeaning

open TcgRs.Model.Decode

variable (isAlphanumeric : Char → Bool)

/-! ## Lines -/

/-- The tokens of a format or pattern after its bit tokens. -/
def attrTokens (line : Text) : List Text :=
  let tokens := (splitWhitespace line).tail
  tokens.drop (countBitTokens isAlphanumeric tokens)

/-- The bits that a token stands for. -/
def tokenBits (tok : Text) : Nat :=
  if isBitToken tok then tok.length
  else match splitColon tok with
    | some (_, rest) => (parseU32 rest).getD 0
    | none => 0

/-- The bit tokens of a line, if there are any, stand for the bits of one word. -/
def Covers (width : Nat) (line : Text) : Prop :=
  bitTokens isAlphanumeric line ≠ [] →
    ((bitTokens isAlphanumeric line).map tokenBits).sum = width

/-- The format that a pattern line uses. -/
def formatOf (s : ParseState) (line : Text) : Option Format :=
  (findFormat (attrTokens isAlphanumeric line)).bind s.formats.get

/-- What a line defines an argument to be: by an attribute, or else by an inline field. -/
def lineDefinition (bp : BitPattern) (attrs : BTreeMap FieldMapping) (arg : String) :
    Option FieldMapping :=
  (attrs.get arg).or ((bp.inlineFields.get arg).map fun place => .inline place.1 place.2 false)

/-- The fields of an argument set. -/
def setFields (argsets : BTreeMap ArgSet) (name : String) : List String :=
  if name = "" then [] else ((argsets.get name).map ArgSet.fields).getD []

/-! ## What a line has to satisfy -/

structure FormatWellFormed (width : Nat) (line : Text) (bp : BitPattern) : Prop where
  covers : Covers isAlphanumeric width line
  inside : ∀ e ∈ bp.inlineFields, e.2.1 + e.2.2 ≤ width

/-- A pattern line: `bp` and `attrs` are what it consists of, `p` is what has been made of it. -/
structure PatternWellFormed (width : Nat) (argsets : BTreeMap ArgSet) (s : ParseState)
    (line : Text) (bp : BitPattern) (attrs : BTreeMap FieldMapping) (p : Pattern) : Prop where
  covers : Covers isAlphanumeric width line
  inside : ∀ e ∈ bp.inlineFields, e.2.1 + e.2.2 ≤ width
  agrees : ∀ fmt, formatOf isAlphanumeric s line = some fmt →
    bp.fixedbits &&& fmt.fixedmask = fmt.fixedbits &&& bp.fixedmask
  bound : ∀ arg ∈ setFields argsets p.argsName, ∀ mapping,
    (lineDefinition bp attrs arg).or
        ((formatOf isAlphanumeric s line).bind fun fmt => fmt.fieldMap.get arg) = some mapping →
      p.fieldMap.get arg = some mapping

/-- What is asked of the formats and patterns, of a line that the parser accepts in a state. -/
def OfAccepted (onFormat : BitPattern → Prop)
    (onPattern : BitPattern → BTreeMap FieldMapping → Pattern → Prop) (width : Nat)
    (s : ParseState) (line : Text) : Prop :=
  match line with
  | [] | '%' :: _ | '&' :: _ | '{' :: _ | '}' :: _ | '[' :: _ | ']' :: _ => True
  | '@' :: _ => ∀ bp, parseBitTokens isAlphanumeric (bitTokens isAlphanumeric line) width = .ok bp →
      onFormat bp
  | _ => ∀ bp attrs p,
      parseBitTokens isAlphanumeric (bitTokens isAlphanumeric line) width = .ok bp →
      parseAttrs (attrTokens isAlphanumeric line) s.fields = .ok attrs →
      (parsePattern isAlphanumeric line s.formats s.fields s.autoArgs width).map Prod.fst = .ok p →
      onPattern bp attrs.2 p

def LineWellFormed (width : Nat) (argsets : BTreeMap ArgSet) (s : ParseState) (line : Text) :
    Prop :=
  OfAccepted isAlphanumeric (FormatWellFormed isAlphanumeric width line)
    (PatternWellFormed isAlphanumeric width argsets s line) width s line

/-- A predicate on every line of a file, in the state that the lines before it have left. -/
def EveryLine (width : Nat) (input : Text) (P : ParseState → Text → Prop) : Prop :=
  ∀ before raw after, lines (mergeContinuations input) = before ++ raw :: after →
    ∀ s, before.foldlM (parseLine isAlphanumeric width) ⟨[], [], [], [], []⟩ = .ok s →
      P s (trim (raw.takeWhile (· != '#')))

/-- A file is well formed. -/
def FileWellFormed (width : Nat) (input : Text) (parsed : Parsed) : Prop :=
  EveryLine isAlphanumeric width input (LineWellFormed isAlphanumeric width parsed.argsets)

end TcgRs.Interface.DecodeMeaning
