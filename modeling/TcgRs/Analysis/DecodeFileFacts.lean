import TcgRs.Interface.DecodeMeaning
import TcgRs.Library.Traversal

/-!
# What the parser of decode files guarantees

When every inline field lies inside the word, the fixed bits of every pattern lie inside the word,
and every inline mapping does.  The fields are stored under their names.
-/

set_option autoImplicit false

namespace TcgRs.Analysis.DecodeFileFacts

open TcgRs.Model.Decode TcgRs.Interface.DecodeMeaning TcgRs.Library.Traversal

/-! ## Maps -/

theorem mem_of_get {V : Type} {m : BTreeMap V} {k : String} {v : V} (h : m.get k = some v) :
    (k, v) ∈ m := by
  induction m with
  | nil => cases h
  | cons e m ih =>
    unfold BTreeMap.get at h ih
    rw [List.lookup_cons] at h
    split at h
    case h_1 heq =>
      cases h
      rw [beq_iff_eq.mp heq]
      exact List.mem_cons_self ..
    case h_2 => exact List.mem_cons_of_mem _ (ih h)

theorem mem_insert {V : Type} {m : BTreeMap V} {k : String} {v : V} {e : String × V}
    (h : e ∈ m.insert k v) : e = (k, v) ∨ e ∈ m := by
  induction m with
  | nil => exact Or.inl (List.mem_singleton.mp h)
  | cons e' m ih =>
    unfold BTreeMap.insert at h
    split at h
    · exact List.mem_cons.mp h
    · split at h
      · rcases List.mem_cons.mp h with h | h
        · exact Or.inl h
        · exact Or.inr (List.mem_cons_of_mem _ h)
      · rcases List.mem_cons.mp h with h | h
        · exact Or.inr (List.mem_cons.mpr (Or.inl h))
        · exact (ih h).imp_right (List.mem_cons_of_mem _)

/-- An inline field has its bits inside the word and no sign; a constant is an `i32`. -/
def MappingInside (width : Nat) : FieldMapping → Prop
  | .inline pos len signed => SegmentInside width ⟨pos, len, signed⟩ ∧ signed = false
  | .fieldRef _ => True
  | .const c => -2 ^ 31 ≤ c ∧ c < 2 ^ 31

def MapInside (width : Nat) (m : BTreeMap FieldMapping) : Prop := ∀ e ∈ m, MappingInside width e.2

section
variable {width : Nat} {m : BTreeMap FieldMapping}

theorem MapInside.insert {k : String} {v : FieldMapping} (h : MapInside width m)
    (hv : MappingInside width v) : MapInside width (m.insert k v) := by
  intro e he
  rcases mem_insert he with rfl | he
  · exact hv
  · exact h e he

theorem MapInside.orInsert {k : String} {v : FieldMapping} (h : MapInside width m)
    (hv : MappingInside width v) : MapInside width (m.orInsert k v) := by
  unfold BTreeMap.orInsert
  split
  · exact h
  · exact h.insert hv

theorem MapInside.extend {extra : BTreeMap FieldMapping} (h : MapInside width m)
    (hextra : MapInside width extra) : MapInside width (m.extend extra) := by
  unfold BTreeMap.extend
  induction extra generalizing m with
  | nil => exact h
  | cons e extra ih =>
    apply ih
    · exact h.insert (hextra e (List.mem_cons_self ..))
    · intro e' he'
      exact hextra e' (List.mem_cons_of_mem _ he')

theorem MapInside.mergeInline {fields : BTreeMap (Nat × Nat)} (h : MapInside width m)
    (hfields : ∀ e ∈ fields, SegmentInside width ⟨e.2.1, e.2.2, false⟩) :
    MapInside width (mergeInline m fields) := by
  unfold Model.Decode.mergeInline
  induction fields generalizing m with
  | nil => exact h
  | cons e fields ih =>
    apply ih
    · exact h.orInsert ⟨hfields e (List.mem_cons_self ..), rfl⟩
    · intro e' he'
      exact hfields e' (List.mem_cons_of_mem _ he')

end

theorem parseI32_range {s : Text} {c : Int} (h : parseI32 s = some c) :
    -2 ^ 31 ≤ c ∧ c < 2 ^ 31 := by
  unfold parseI32 at h
  split at h
  all_goals
    obtain ⟨n, _, h⟩ := Option.bind_eq_some_iff.mp h
    split at h
    · cases h
      omega
    · cases h

/-- An attribute maps at most one argument, to a field or to a constant. -/
theorem parseAttr_cases {fields : BTreeMap Field} {tok : Text}
    {s s' : String × BTreeMap FieldMapping} (h : parseAttr fields s tok = .ok s') :
    s'.2 = s.2 ∨ ∃ k v, s'.2 = s.2.insert k v ∧
      ((∃ r, v = .fieldRef r) ∨ ∃ c, v = .const c ∧ -2 ^ 31 ≤ c ∧ c < 2 ^ 31) := by
  unfold parseAttr at h
  split at h
  case h_1 =>
    cases h
    exact .inl rfl
  case h_2 =>
    cases h
    exact .inr ⟨_, _, rfl, .inl ⟨_, rfl⟩⟩
  case h_3 =>
    dsimp only at h
    split at h
    · split at h
      · cases h
        exact .inr ⟨_, _, rfl, .inl ⟨_, rfl⟩⟩
      · split at h
        case h_1 hc =>
          cases h
          exact .inr ⟨_, _, rfl, .inr ⟨_, rfl, parseI32_range hc⟩⟩
        case h_2 => cases h
    · split at h
      · cases h
        exact .inl rfl
      · cases h
        exact .inl rfl
      · split at h
        · cases h
          exact .inr ⟨_, _, rfl, .inl ⟨_, rfl⟩⟩
        · cases h
          exact .inl rfl

/-- The attributes of a line map arguments to fields and constants only. -/
theorem parseAttrs_inside {width : Nat} {tokens : List Text} {fields : BTreeMap Field}
    {r : String × BTreeMap FieldMapping} (h : parseAttrs tokens fields = .ok r) :
    MapInside width r.2 := by
  apply foldlM_invariant (fun s : String × BTreeMap FieldMapping => MapInside width s.2)
    (f := parseAttr fields) _ _ h
  · intro tok _ s s' hs hstep
    rcases parseAttr_cases hstep with hsame | ⟨k, v, hinsert, hv⟩
    · rw [hsame]
      exact hs
    · rw [hinsert]
      refine hs.insert ?_
      rcases hv with ⟨r, rfl⟩ | ⟨c, rfl, hc⟩
      · trivial
      · exact hc
  · exact nofun

/-! ## Bit patterns -/

def BitsFit (width : Nat) (b : BitVec 32) : Prop := b.toNat < 2 ^ width

theorem BitsFit.or {width : Nat} {a b : BitVec 32} (ha : BitsFit width a) (hb : BitsFit width b) :
    BitsFit width (a ||| b) := by
  unfold BitsFit
  rw [BitVec.toNat_or]
  exact Nat.or_lt_two_pow ha hb

/-- What the loop over the bit tokens keeps. -/
structure BitsInside (width : Nat) (b : BitPattern) : Prop where
  low : -1 ≤ b.bitPos
  high : b.bitPos < width
  bits : BitsFit width b.fixedbits
  mask : BitsFit width b.fixedmask
  fields : ∀ e ∈ b.inlineFields, SegmentInside width ⟨e.2.1, e.2.2, false⟩

section
variable {width : Nat} (hw : width = 16 ∨ width = 32)
include hw

theorem parseBit_inside {b b' : BitPattern} {c : Char} (hb : BitsInside width b)
    (h : parseBit width b c = .ok b') : BitsInside width b' ∧ b'.bitPos = b.bitPos - 1 := by
  have hhigh := hb.high
  unfold parseBit at h
  split at h
  case isTrue => cases h
  case isFalse hpos =>
    have hbit : BitsFit width (1#32 <<< (b.bitPos.toNat % 32)) := by
      have hlt : b.bitPos.toNat < width := by omega
      have hle : width ≤ 32 := by omega
      have hpow : 2 ^ b.bitPos.toNat < 2 ^ width := Nat.pow_lt_pow_right (by omega) hlt
      have hfit : 2 ^ width ≤ 2 ^ 32 := Nat.pow_le_pow_right (by omega) hle
      unfold BitsFit
      rw [Nat.mod_eq_of_lt (by omega), BitVec.toNat_shiftLeft, Nat.shiftLeft_eq]
      show 1 * 2 ^ b.bitPos.toNat % 2 ^ 32 < 2 ^ width
      rw [Nat.one_mul, Nat.mod_eq_of_lt (by omega)]
      exact hpow
    have hlow : -1 ≤ b.bitPos - 1 := by omega
    have hnext : b.bitPos - 1 < width := by omega
    dsimp only at h
    split at h
    · cases h
      exact ⟨⟨hlow, hnext, hb.bits.or hbit, hb.mask.or hbit, hb.fields⟩, rfl⟩
    · split at h
      · cases h
        exact ⟨⟨hlow, hnext, hb.bits, hb.mask.or hbit, hb.fields⟩, rfl⟩
      · cases h
        exact ⟨⟨hlow, hnext, hb.bits, hb.mask, hb.fields⟩, rfl⟩

theorem parseBits_inside {tok : Text} {b b' : BitPattern} (hb : BitsInside width b)
    (h : tok.foldlM (parseBit width) b = .ok b') :
    BitsInside width b' ∧ b'.bitPos = b.bitPos - tok.length := by
  induction tok generalizing b with
  | nil =>
    cases h
    exact ⟨hb, by simp⟩
  | cons c tok ih =>
    rw [List.foldlM_cons] at h
    cases hc : parseBit width b c with
    | error e =>
      rw [hc] at h
      cases h
    | ok b₁ =>
      rw [hc] at h
      obtain ⟨hb₁, hpos₁⟩ := parseBit_inside hw hb hc
      obtain ⟨hb', hpos'⟩ := ih hb₁ h
      refine ⟨hb', ?_⟩
      rw [hpos', hpos₁, List.length_cons]
      push_cast
      omega

theorem wrapI32_eq {n : Int} (hlow : -1 ≤ n) (hhigh : n < width) : wrapI32 n = n := by
  unfold wrapI32
  rw [BitVec.toInt_ofInt]
  apply Int.bmod_eq_of_le <;> omega

/-- An inline field that lies inside the word. -/
theorem parseInline_inside {tok name rest : Text} {len : Nat} {b b' : BitPattern}
    (hb : BitsInside width b) (htok : splitColon tok = some (name, rest))
    (hlen : parseU32 rest = some len) (hin : 0 ≤ b.bitPos - len + 1) (h1 : 1 ≤ len)
    (h31 : len ≤ 31) (h : parseInline b tok = .ok b') :
    BitsInside width b' ∧ b'.bitPos = b.bitPos - len := by
  have hhigh := hb.high
  have hwrap : wrapI32 (b.bitPos - len) = b.bitPos - len :=
    wrapI32_eq hw (by omega) (by omega)
  have hplace : (BitVec.ofInt 32 (b.bitPos - len + 1)).toNat = (b.bitPos - len + 1).toNat := by
    rw [BitVec.toNat_ofInt]
    omega
  unfold parseInline at h
  rw [htok] at h
  dsimp only at h
  rw [hlen] at h
  cases h
  refine ⟨⟨?_, ?_, hb.bits, hb.mask, ?_⟩, hwrap⟩
  · show -1 ≤ wrapI32 (b.bitPos - len)
    omega
  · show wrapI32 (b.bitPos - len) < width
    omega
  · intro e he
    rcases mem_insert he with rfl | he
    · rw [hplace]
      refine ⟨?_, h1, h31⟩
      show (b.bitPos - len + 1).toNat + len ≤ width
      omega
    · exact hb.fields e he

theorem parseTokens_inside {isAlphanumeric : Char → Bool} {toks : List Text} {b b' : BitPattern}
    (hb : BitsInside width b)
    (hin : ∀ e ∈ inlinePlaces toks b.bitPos, 0 ≤ e.1 ∧ e.1 + e.2 ≤ width ∧ 1 ≤ e.2 ∧ e.2 ≤ 31)
    (h : parseTokens isAlphanumeric width toks b = .ok b') : BitsInside width b' := by
  induction toks generalizing b with
  | nil =>
    cases h
    exact hb
  | cons tok toks ih =>
    unfold parseTokens at h
    unfold inlinePlaces at hin
    split at h
    case isTrue htok =>
      rw [if_pos htok] at hin
      cases hbits : tok.foldlM (parseBit width) b with
      | error e =>
        rw [hbits] at h
        cases h
      | ok b₁ =>
        rw [hbits] at h
        obtain ⟨hb₁, hpos⟩ := parseBits_inside hw hb hbits
        rw [← hpos] at hin
        exact ih hb₁ hin h
    case isFalse htok =>
      rw [if_neg htok] at hin
      split at h
      case isTrue hinline =>
        unfold isInlineField at hinline
        split at hinline
        case h_2 => cases hinline
        case h_1 name rest htok =>
          rw [htok] at hin
          dsimp only at hin
          cases hlen : parseU32 rest with
          | none =>
            unfold parseInline at h
            rw [htok] at h
            dsimp only at h
            rw [hlen] at h
            cases h
          | some len =>
            rw [hlen] at hin
            dsimp only at hin
            obtain ⟨hlow, _, h1, h31⟩ := hin _ (List.mem_cons_self ..)
            cases hp : parseInline b tok with
            | error e =>
              rw [hp] at h
              cases h
            | ok b₁ =>
              rw [hp] at h
              obtain ⟨hb₁, hpos⟩ := parseInline_inside hw hb htok hlen hlow h1 h31 hp
              rw [← hpos] at hin
              exact ih hb₁ (fun e he => hin e (List.mem_cons_of_mem _ he)) h
      case isFalse =>
        cases h
        exact hb

theorem parseBitTokens_inside {isAlphanumeric : Char → Bool} {toks : List Text} {b : BitPattern}
    (hin : InlineInside width toks) (h : parseBitTokens isAlphanumeric toks width = .ok b) :
    BitsInside width b := by
  have hzero : BitsFit width 0 := Nat.two_pow_pos width
  have hlow : -1 ≤ (width : Int) - 1 := by omega
  have hhigh : (width : Int) - 1 < width := by omega
  have hstart : BitsInside width ⟨0, 0, [], (width : Int) - 1⟩ :=
    ⟨hlow, hhigh, hzero, hzero, nofun⟩
  rw [parseBitTokens, wrapI32_eq hw hlow hhigh] at h
  exact parseTokens_inside hw hstart hin h

/-! ## Lines -/

theorem parseFormat_inside {isAlphanumeric : Char → Bool} {line : Text} {fields : BTreeMap Field}
    {r : String × Format} (hin : InlineInside width (bitTokens isAlphanumeric line))
    (h : parseFormat isAlphanumeric line fields width = .ok r) :
    BitsFit width r.2.fixedbits ∧ BitsFit width r.2.fixedmask ∧ MapInside width r.2.fieldMap := by
  unfold parseFormat at h
  dsimp only at h
  cases hbp : parseBitTokens isAlphanumeric (bitTokens isAlphanumeric line) width with
  | error e =>
    unfold bitTokens at hbp
    rw [hbp] at h
    cases h
  | ok bp =>
    have hinside := parseBitTokens_inside hw hin hbp
    unfold bitTokens at hbp
    rw [hbp] at h
    cases hattrs : parseAttrs ((splitWhitespace line).tail.drop
        (countBitTokens isAlphanumeric (splitWhitespace line).tail)) fields with
    | error e =>
      simp only [bind, Except.bind, hattrs] at h
      cases h
    | ok attrs =>
      simp only [bind, Except.bind, hattrs, pure, Except.pure, Except.ok.injEq] at h
      cases h
      exact ⟨hinside.bits, hinside.mask, (parseAttrs_inside hattrs).mergeInline hinside.fields⟩

/-- What is known of a pattern. -/
structure PatternInside (width : Nat) (p : Pattern) : Prop where
  bits : BitsFit width p.fixedbits
  mask : BitsFit width p.fixedmask
  map : MapInside width p.fieldMap

/-- What is known of the lines that were read. -/
structure StateInside (width : Nat) (s : ParseState) : Prop where
  named : ∀ e ∈ s.fields, e.1 = e.2.name
  formats : ∀ e ∈ s.formats, BitsFit width e.2.fixedbits ∧ BitsFit width e.2.fixedmask ∧
    MapInside width e.2.fieldMap
  patterns : ∀ p ∈ s.patterns, PatternInside width p

theorem parsePattern_inside {isAlphanumeric : Char → Bool} {line : Text} {s : ParseState}
    {r : Pattern × BTreeMap ArgSet} (hs : StateInside width s)
    (hin : InlineInside width (bitTokens isAlphanumeric line))
    (h : parsePattern isAlphanumeric line s.formats s.fields s.autoArgs width = .ok r) :
    PatternInside width r.1 := by
  unfold parsePattern at h
  dsimp only at h
  cases hbp : parseBitTokens isAlphanumeric (bitTokens isAlphanumeric line) width with
  | error e =>
    unfold bitTokens at hbp
    rw [hbp] at h
    cases h
  | ok bp =>
    have hinside := parseBitTokens_inside hw hin hbp
    unfold bitTokens at hbp
    rw [hbp] at h
    cases hattrs : parseAttrs ((splitWhitespace line).tail.drop
        (countBitTokens isAlphanumeric (splitWhitespace line).tail)) s.fields with
    | error e =>
      simp only [bind, Except.bind, hattrs] at h
      split at h
      · split at h <;> cases h
      · cases h
    | ok attrs =>
      simp only [bind, Except.bind, hattrs, pure, Except.pure] at h
      have hmap : MapInside width attrs.2 := parseAttrs_inside hattrs
      split at h
      case h_1 fname _ =>
        split at h
        case h_1 => cases h
        case h_2 fmt hfmt =>
          cases h
          obtain ⟨hbits, hmask, hfm⟩ := hs.formats _ (mem_of_get hfmt)
          exact ⟨hinside.bits.or hbits, hinside.mask.or hmask, hfm.extend hmap⟩
      case h_2 =>
        have hmerged := hmap.mergeInline hinside.fields
        split at h
        · cases h
          exact ⟨hinside.bits, hinside.mask, hmerged⟩
        · cases h
          exact ⟨hinside.bits, hinside.mask, hmerged⟩

theorem parseLine_inside {isAlphanumeric : Char → Bool} {raw : Text} {s s' : ParseState}
    (hs : StateInside width s)
    (hin : ∀ c rest, trim (raw.takeWhile (· != '#')) = c :: rest →
      c ∉ ['%', '&', '{', '}', '[', ']'] →
        InlineInside width (bitTokens isAlphanumeric (c :: rest)))
    (h : parseLine isAlphanumeric width s raw = .ok s') : StateInside width s' := by
  unfold parseLine at h
  dsimp only at h
  generalize trim (raw.takeWhile (· != '#')) = line at h hin
  split at h
  case h_1 =>
    cases h
    exact hs
  case h_2 rest =>
    cases hf : parseField ('%' :: rest) with
    | error e =>
      rw [hf] at h
      cases h
    | ok f =>
      rw [hf] at h
      cases h
      refine ⟨?_, hs.formats, hs.patterns⟩
      intro e he
      rcases mem_insert he with rfl | he
      · rfl
      · exact hs.named e he
  case h_3 =>
    cases h
    exact ⟨hs.named, hs.formats, hs.patterns⟩
  case h_4 rest =>
    cases hf : parseFormat isAlphanumeric ('@' :: rest) s.fields width with
    | error e =>
      rw [hf] at h
      cases h
    | ok f =>
      rw [hf] at h
      cases h
      have hfmt := parseFormat_inside hw (hin '@' rest rfl (by decide)) hf
      refine ⟨hs.named, ?_, hs.patterns⟩
      intro e he
      rcases mem_insert he with rfl | he
      · exact hfmt
      · exact hs.formats e he
  case h_5 | h_6 | h_7 | h_8 =>
    cases h
    exact hs
  case h_9 hnil hf ha _ hb₁ hb₂ hb₃ hb₄ =>
    cases hp : parsePattern isAlphanumeric line s.formats s.fields s.autoArgs width with
    | error e =>
      rw [hp] at h
      cases h
    | ok r =>
      rw [hp] at h
      cases h
      have hinline : InlineInside width (bitTokens isAlphanumeric line) := by
        cases line with
        | nil => exact absurd rfl hnil
        | cons c rest =>
          apply hin c rest rfl
          intro hc
          simp only [List.mem_cons, List.not_mem_nil, or_false] at hc
          rcases hc with rfl | rfl | rfl | rfl | rfl | rfl
          · exact hf _ rfl
          · exact ha _ rfl
          · exact hb₁ _ rfl
          · exact hb₂ _ rfl
          · exact hb₃ _ rfl
          · exact hb₄ _ rfl
      have hpat := parsePattern_inside hw hs hinline hp
      refine ⟨hs.named, hs.formats, ?_⟩
      intro p hmem
      rcases List.mem_append.mp hmem with hmem | hmem
      · exact hs.patterns p hmem
      · rw [List.mem_singleton.mp hmem]
        exact hpat

/-! ## Files -/

/-- The patterns of an accepted file lie inside the word, and its fields are under their names. -/
theorem parseWithWidth_inside {isAlphanumeric : Char → Bool} {input : Text} {parsed : Parsed}
    (hin : ∀ line ∈ patternLines input, InlineInside width (bitTokens isAlphanumeric line))
    (h : parseWithWidth isAlphanumeric input width = .ok parsed) :
    (∀ e ∈ parsed.fields, e.1 = e.2.name) ∧ ∀ p ∈ parsed.patterns, PatternInside width p := by
  unfold parseWithWidth at h
  cases hrun : (lines (mergeContinuations input)).foldlM (parseLine isAlphanumeric width)
      ⟨[], [], [], [], []⟩ with
  | error e =>
    rw [hrun] at h
    cases h
  | ok s =>
    rw [hrun] at h
    cases h
    have hs : StateInside width s := by
      apply foldlM_invariant (StateInside width) _ _ hrun
      · intro raw hraw s s' hs hstep
        apply parseLine_inside hw hs _ hstep
        intro c rest hline hc
        apply hin
        unfold patternLines
        rw [List.mem_filter, List.mem_map]
        exact ⟨⟨raw, hraw, hline⟩, decide_eq_true hc⟩
      · exact ⟨nofun, nofun, nofun⟩
    exact ⟨hs.named, hs.patterns⟩

end

end TcgRs.Analysis.DecodeFileFacts
