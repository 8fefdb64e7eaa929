import Mathlib.Data.List.TakeWhile
import Mathlib.Data.String.Basic
import TcgRs.Analysis.DecodeFileFacts
import TcgRs.Interface.DecodeChecks

/-!
# Malformed patterns

Which files the parser accepts although they are not well formed.  It counts bits down from the top
and only refuses a bit character below the word; it merges fixed bits without comparing them; and
it drops the inline fields of a pattern that uses a format.
-/

set_option autoImplicit false

namespace TcgRs.Analysis.MalformedPatterns

open TcgRs.Model.Decode TcgRs.Interface.DecodeMeaning TcgRs.Library.Traversal DecodeFileFacts

/-! ## Maps -/

section
variable {V : Type}

theorem get_cons_self (m : BTreeMap V) (k : String) (v : V) :
    BTreeMap.get ((k, v) :: m) k = some v := by
  unfold BTreeMap.get
  rw [List.lookup_cons, beq_self_eq_true]

theorem get_cons_of_ne (m : BTreeMap V) {k k' : String} (h : k' ≠ k) (v : V) :
    BTreeMap.get ((k, v) :: m) k' = m.get k' := by
  unfold BTreeMap.get
  rw [List.lookup_cons, beq_eq_false_iff_ne.mpr h]

theorem get_insert_self (m : BTreeMap V) (k : String) (v : V) : (m.insert k v).get k = some v := by
  induction m with
  | nil => exact get_cons_self [] k v
  | cons e m ih =>
    unfold BTreeMap.insert
    split
    · exact get_cons_self _ k v
    · split
      · exact get_cons_self m k v
      · rename_i hne
        rw [get_cons_of_ne _ hne, ih]

theorem get_insert_of_ne (m : BTreeMap V) {k k' : String} (h : k' ≠ k) (v : V) :
    (m.insert k v).get k' = m.get k' := by
  induction m with
  | nil => exact get_cons_of_ne [] h v
  | cons e m ih =>
    unfold BTreeMap.insert
    split
    · exact get_cons_of_ne _ h v
    · split
      · rename_i heq
        rw [get_cons_of_ne m h, get_cons_of_ne m (heq ▸ h)]
      · by_cases he : k' = e.1
        · rw [he, get_cons_self, get_cons_self]
        · rw [get_cons_of_ne _ he, get_cons_of_ne _ he, ih]

theorem get_insert (m : BTreeMap V) (k k' : String) (v : V) :
    (m.insert k v).get k' = if k' = k then some v else m.get k' := by
  by_cases h : k' = k
  · rw [if_pos h, h, get_insert_self]
  · rw [if_neg h, get_insert_of_ne m h]

theorem get_orInsert (m : BTreeMap V) (k k' : String) (v : V) :
    (m.orInsert k v).get k' = (m.get k').or (if k' = k then some v else none) := by
  unfold BTreeMap.orInsert
  split
  · rename_i hsome
    by_cases h : k' = k
    · rw [h, Option.or_of_isSome hsome]
    · rw [if_neg h, Option.or_none]
  · rename_i hnone
    rw [get_insert]
    by_cases h : k' = k
    · rw [if_pos h, if_pos h, h, Option.not_isSome_iff_eq_none.mp hnone, Option.none_or]
    · rw [if_neg h, if_neg h, Option.or_none]

/-- The mapped arguments go before the inline fields. -/
theorem get_mergeInline (m : BTreeMap FieldMapping) (fields : BTreeMap (Nat × Nat))
    (k : String) : (mergeInline m fields).get k =
      (m.get k).or ((fields.get k).map fun place => .inline place.1 place.2 false) := by
  unfold mergeInline
  induction fields generalizing m with
  | nil => exact Option.or_none.symm
  | cons e fields ih =>
    rw [List.foldl_cons, ih, get_orInsert, Option.or_assoc]
    congr 1
    by_cases h : k = e.1
    · rw [if_pos h, h, get_cons_self]
      rfl
    · rw [if_neg h, get_cons_of_ne _ h, Option.none_or]

/-- The keys of a map increase. -/
def Sorted (m : BTreeMap V) : Prop := m.Pairwise fun e e' => e.1 < e'.1

theorem Sorted.insert {m : BTreeMap V} (h : Sorted m) (k : String) (v : V) :
    Sorted (m.insert k v) := by
  induction m with
  | nil => exact List.pairwise_singleton _ _
  | cons e m ih =>
    obtain ⟨hfirst, hrest⟩ := List.pairwise_cons.mp h
    unfold BTreeMap.insert
    split
    · rename_i hlt
      refine List.pairwise_cons.mpr ⟨?_, h⟩
      intro e' he'
      cases List.mem_cons.mp he' with
      | inl heq => rw [heq]; exact hlt
      | inr hmem => exact lt_trans hlt (hfirst e' hmem)
    · rename_i hnlt
      split
      · rename_i heq
        refine List.pairwise_cons.mpr ⟨?_, hrest⟩
        intro e' he'
        rw [heq]
        exact hfirst e' he'
      · rename_i hne
        refine List.pairwise_cons.mpr ⟨?_, ih hrest⟩
        intro e' he'
        cases mem_insert he' with
        | inl heq => rw [heq]; exact lt_of_le_of_ne (not_lt.mp hnlt) (Ne.symm hne)
        | inr hmem => exact hfirst e' hmem

/-- The entries of a sorted extension go before those of the map. -/
theorem get_extend (m : BTreeMap V) {extra : BTreeMap V} (h : Sorted extra) (k : String) :
    (m.extend extra).get k = (extra.get k).or (m.get k) := by
  unfold BTreeMap.extend
  induction extra generalizing m with
  | nil => rfl
  | cons e extra ih =>
    obtain ⟨hfirst, hrest⟩ := List.pairwise_cons.mp h
    rw [List.foldl_cons, ih _ hrest, get_insert]
    by_cases heq : k = e.1
    · have hnone : BTreeMap.get extra k = none := by
        by_contra hsome
        obtain ⟨v, hv⟩ := Option.ne_none_iff_exists'.mp hsome
        exact absurd (hfirst _ (mem_of_get hv)) (heq ▸ lt_irrefl _)
      rw [if_pos heq, hnone, heq, get_cons_self, Option.none_or]
      rfl
    · rw [if_neg heq, get_cons_of_ne _ heq]

end

theorem sorted_parseAttrs {tokens : List Text} {fields : BTreeMap Field}
    {r : String × BTreeMap FieldMapping} (h : parseAttrs tokens fields = .ok r) : Sorted r.2 := by
  refine foldlM_invariant (fun s : String × BTreeMap FieldMapping => Sorted s.2) (f := parseAttr fields)
    ?_ ?_ h
  · intro tok _ s s' hs hstep
    rcases parseAttr_cases hstep with hsame | ⟨k, v, hinsert, -⟩
    · rw [hsame]
      exact hs
    · rw [hinsert]
      exact hs.insert k v
  · exact List.Pairwise.nil

/-! ## Bit tokens -/

section
variable {isAlphanumeric : Char → Bool} {width : Nat}

theorem mem_bitTokens {line tok : Text} (h : tok ∈ bitTokens isAlphanumeric line) :
    (isBitToken tok || isInlineField isAlphanumeric tok) = true := by
  unfold bitTokens countBitTokens at h
  dsimp only at h
  rw [← List.prefix_iff_eq_take.mp (List.takeWhile_prefix _)] at h
  have hkind := List.mem_takeWhile_imp h
  exact hkind

/-- The position of the next bit after `consumed` bits, and the inline fields so far. -/
structure Counted (width consumed : Nat) (b : BitPattern) : Prop where
  position : ∃ k : Int, b.bitPos = width - 1 - consumed + k * 2 ^ 32
  inside : ∀ e ∈ b.inlineFields, e.2.1 + e.2.2 ≤ width

theorem parseBit_counted {consumed : Nat} {b b' : BitPattern} {c : Char}
    (hb : Counted width consumed b) (h : parseBit width b c = .ok b') :
    Counted width (consumed + 1) b' := by
  obtain ⟨k, hk⟩ := hb.position
  have hnext : b'.bitPos = b.bitPos - 1 ∧ b'.inlineFields = b.inlineFields := by
    unfold parseBit at h
    split at h
    · cases h
    · dsimp only at h
      split at h
      · cases h
        exact ⟨rfl, rfl⟩
      · split at h <;>
        · cases h
          exact ⟨rfl, rfl⟩
  refine ⟨⟨k, ?_⟩, hnext.2 ▸ hb.inside⟩
  rw [hnext.1, hk]
  push_cast
  omega

theorem parseBits_counted {tok : Text} {consumed : Nat} {b b' : BitPattern}
    (hb : Counted width consumed b) (h : tok.foldlM (parseBit width) b = .ok b') :
    Counted width (consumed + tok.length) b' := by
  induction tok generalizing consumed b with
  | nil =>
    cases h
    exact hb
  | cons c tok ih =>
    rw [List.foldlM_cons] at h
    cases hc : parseBit width b c with
    | error e =>
      rw [hc] at h
      cases h
    | ok b₁ =>
      rw [hc] at h
      rw [List.length_cons, Nat.add_comm tok.length, ← Nat.add_assoc]
      exact ih (parseBit_counted hb hc) h

/-- An inline field that fits above the last bit. -/
theorem parseInline_counted {tok name rest : Text} {consumed : Nat} {b b' : BitPattern}
    (hw : width < 2 ^ 32) (hb : Counted width consumed b) (hsplit : splitColon tok = some (name, rest))
    (hfit : consumed + (parseU32 rest).getD 0 ≤ width) (h : parseInline b tok = .ok b') :
    Counted width (consumed + (parseU32 rest).getD 0) b' := by
  obtain ⟨k, hk⟩ := hb.position
  unfold parseInline at h
  rw [hsplit] at h
  dsimp only at h
  cases hlen : parseU32 rest with
  | none =>
    rw [hlen] at h
    cases h
  | some len =>
    rw [hlen] at h hfit
    rw [Option.getD_some] at hfit ⊢
    cases h
    have hplace : (BitVec.ofInt 32 (b.bitPos - len + 1)).toNat = width - consumed - len := by
      rw [BitVec.toNat_ofInt, hk]
      omega
    refine ⟨?_, ?_⟩
    · refine ⟨k - (b.bitPos - len).bdiv (2 ^ 32), ?_⟩
      show (BitVec.ofInt 32 (b.bitPos - len)).toInt = _
      rw [BitVec.toInt_ofInt, Int.bmod_eq_self_sub_mul_bdiv]
      generalize (b.bitPos - len).bdiv (2 ^ 32) = q
      push_cast
      rw [hk]
      omega
    · intro e he
      cases mem_insert he with
      | inl heq =>
        rw [heq]
        show (BitVec.ofInt 32 (b.bitPos - len + 1)).toNat + len ≤ width
        omega
      | inr hmem => exact hb.inside e hmem

theorem parseTokens_counted {toks : List Text} {consumed : Nat} {b b' : BitPattern}
    (hw : width < 2 ^ 32)
    (htoks : ∀ tok ∈ toks, (isBitToken tok || isInlineField isAlphanumeric tok) = true)
    (hb : Counted width consumed b) (hfit : consumed + (toks.map tokenBits).sum ≤ width)
    (h : parseTokens isAlphanumeric width toks b = .ok b') :
    Counted width (consumed + (toks.map tokenBits).sum) b' := by
  induction toks generalizing consumed b with
  | nil =>
    cases h
    exact hb
  | cons tok toks ih =>
    have hrest : ∀ tok ∈ toks, (isBitToken tok || isInlineField isAlphanumeric tok) = true :=
      fun tok' htok' => htoks tok' (List.mem_cons_of_mem _ htok')
    rw [List.map_cons, List.sum_cons, ← Nat.add_assoc] at hfit ⊢
    -- one token
    suffices hstep : ∃ b₁, Counted width (consumed + tokenBits tok) b₁ ∧
        parseTokens isAlphanumeric width toks b₁ = .ok b' by
      obtain ⟨b₁, hb₁, h₁⟩ := hstep
      exact ih hrest hb₁ hfit h₁
    have hkind := htoks tok List.mem_cons_self
    unfold parseTokens at h
    by_cases hbits : isBitToken tok = true
    · rw [if_pos hbits] at h
      rw [tokenBits, if_pos hbits]
      cases hfold : tok.foldlM (parseBit width) b with
      | error e =>
        rw [hfold] at h
        cases h
      | ok b₁ =>
        rw [hfold] at h
        exact ⟨b₁, parseBits_counted hb hfold, h⟩
    · have hinline : isInlineField isAlphanumeric tok = true := by
        rw [Bool.not_eq_true] at hbits
        rw [hbits, Bool.false_or] at hkind
        exact hkind
      rw [if_neg hbits, if_pos hinline] at h
      unfold isInlineField at hinline
      split at hinline
      case h_2 => cases hinline
      case h_1 name rest hsplit =>
        have hlen : tokenBits tok = (parseU32 rest).getD 0 := by
          rw [tokenBits, if_neg hbits, hsplit]
        rw [hlen] at hfit ⊢
        cases hp : parseInline b tok with
        | error e =>
          rw [hp] at h
          cases h
        | ok b₁ =>
          rw [hp] at h
          exact ⟨b₁, parseInline_counted hw hb hsplit (by omega) hp, h⟩

/-- The inline fields of a line that covers the word lie inside it. -/
theorem inside_of_covers {line : Text} {bp : BitPattern} (hw : width < 2 ^ 32)
    (hcovers : Covers isAlphanumeric width line)
    (h : parseBitTokens isAlphanumeric (bitTokens isAlphanumeric line) width = .ok bp) :
    ∀ e ∈ bp.inlineFields, e.2.1 + e.2.2 ≤ width := by
  by_cases hnone : bitTokens isAlphanumeric line = []
  · rw [hnone] at h
    cases h
    exact nofun
  · have hsum := hcovers hnone
    have hstart : Counted width 0 ⟨0, 0, [], wrapI32 (width - 1)⟩ := by
      refine ⟨⟨-((width - 1 : Int).bdiv (2 ^ 32)), ?_⟩, nofun⟩
      show (BitVec.ofInt 32 (width - 1)).toInt = _
      rw [BitVec.toInt_ofInt, Int.bmod_eq_self_sub_mul_bdiv]
      generalize (width - 1 : Int).bdiv (2 ^ 32) = q
      push_cast
      omega
    exact (parseTokens_counted hw (fun _ => mem_bitTokens) hstart (by omega) h).inside

end

/-! ## Patterns -/

/-- What the condition asks of a pattern that uses a format: its inline fields that are arguments
are mapped by an attribute, or by the format to the same bits. -/
def InlineKept (isAlphanumeric : Char → Bool) (argsets : BTreeMap ArgSet)
    (s : ParseState) (line : Text) (bp : BitPattern) (attrs : BTreeMap FieldMapping) : Prop :=
  ∀ fmt, formatOf isAlphanumeric s line = some fmt → ∀ arg ∈ setFields argsets fmt.argsName,
    attrs.get arg = none → ∀ place, bp.inlineFields.get arg = some place →
      fmt.fieldMap.get arg = some (.inline place.1 place.2 false)

/-- What the parser does not check of a pattern line. -/
structure PatternChecks (isAlphanumeric : Char → Bool) (width : Nat) (argsets : BTreeMap ArgSet)
    (s : ParseState) (line : Text) (bp : BitPattern) (attrs : BTreeMap FieldMapping) : Prop where
  covers : Covers isAlphanumeric width line
  agrees : ∀ fmt, formatOf isAlphanumeric s line = some fmt →
    bp.fixedbits &&& fmt.fixedmask = fmt.fixedbits &&& bp.fixedmask
  kept : InlineKept isAlphanumeric argsets s line bp attrs

section
variable {isAlphanumeric : Char → Bool} {width : Nat}

/-- The mapping of a pattern that uses a format, and of one that does not. -/
theorem parsePattern_map {line : Text} {s : ParseState} {bp : BitPattern}
    {attrs : String × BTreeMap FieldMapping} {p : Pattern}
    (hbp : parseBitTokens isAlphanumeric (bitTokens isAlphanumeric line) width = .ok bp)
    (hattrs : parseAttrs (attrTokens isAlphanumeric line) s.fields = .ok attrs)
    (h : (parsePattern isAlphanumeric line s.formats s.fields s.autoArgs width).map Prod.fst =
      .ok p) :
    (∃ fmt, formatOf isAlphanumeric s line = some fmt ∧ p.argsName = fmt.argsName ∧
      p.fieldMap = fmt.fieldMap.extend attrs.2) ∨
    (formatOf isAlphanumeric s line = none ∧
      p.fieldMap = mergeInline attrs.2 bp.inlineFields) := by
  unfold parsePattern at h
  unfold bitTokens at hbp
  unfold attrTokens at hattrs
  unfold formatOf attrTokens
  dsimp only at h hbp hattrs ⊢
  generalize findFormat ((splitWhitespace line).tail.drop
    (countBitTokens isAlphanumeric (splitWhitespace line).tail)) = reference at h ⊢
  rw [hbp] at h
  cases reference with
  | some fname =>
    rw [Option.bind_some]
    cases hfmt : s.formats.get fname with
    | none =>
      simp only [bind, Except.bind, hfmt, Except.map] at h
      cases h
    | some fmt =>
      simp only [bind, Except.bind, hfmt, hattrs, pure, Except.pure, Except.map] at h
      cases h
      exact .inl ⟨fmt, rfl, rfl, rfl⟩
  | none =>
    refine .inr ⟨rfl, ?_⟩
    simp only [bind, Except.bind, hattrs, pure, Except.pure] at h
    split at h <;>
    · cases h
      rfl

/-- The arguments of a pattern are bound as its line and its format define them exactly when no
inline field is dropped. -/
theorem bound_iff {argsets : BTreeMap ArgSet} {line : Text} {s : ParseState} {bp : BitPattern}
    {attrs : String × BTreeMap FieldMapping} {p : Pattern}
    (hbp : parseBitTokens isAlphanumeric (bitTokens isAlphanumeric line) width = .ok bp)
    (hattrs : parseAttrs (attrTokens isAlphanumeric line) s.fields = .ok attrs)
    (h : (parsePattern isAlphanumeric line s.formats s.fields s.autoArgs width).map Prod.fst =
      .ok p) :
    (∀ arg ∈ setFields argsets p.argsName, ∀ mapping,
      (lineDefinition bp attrs.2 arg).or
          ((formatOf isAlphanumeric s line).bind fun fmt => fmt.fieldMap.get arg) = some mapping →
        p.fieldMap.get arg = some mapping) ↔
      InlineKept isAlphanumeric argsets s line bp attrs.2 := by
  unfold InlineKept lineDefinition
  rcases parsePattern_map hbp hattrs h with ⟨fmt, hfmt, hargs, hmap⟩ | ⟨hfmt, hmap⟩
  · rw [hfmt, hargs, hmap]
    simp only [Option.bind_some]
    constructor
    · rintro hbound fmt' hfmt' arg harg hnone place hplace
      cases hfmt'
      have hdef := hbound arg harg (.inline place.1 place.2 false)
        (by rw [hnone, hplace]; rfl)
      rw [get_extend _ (sorted_parseAttrs hattrs), hnone, Option.none_or] at hdef
      exact hdef
    · intro hkept arg harg mapping hdef
      rw [get_extend _ (sorted_parseAttrs hattrs)]
      cases hattr : attrs.2.get arg with
      | some m =>
        rw [hattr] at hdef
        exact hdef
      | none =>
        rw [hattr, Option.none_or] at hdef
        rw [Option.none_or]
        cases hplace : bp.inlineFields.get arg with
        | none =>
          rw [hplace] at hdef
          exact hdef
        | some place =>
          rw [hplace] at hdef
          rw [hkept fmt rfl arg harg hattr place hplace]
          exact hdef
  · rw [hfmt, hmap]
    refine iff_of_true ?_ nofun
    intro arg _ mapping hdef
    rw [get_mergeInline]
    rw [Option.bind_none, Option.or_none] at hdef
    exact hdef

end

/-! ## Files -/

/-- What the parser does not check of a line that it accepts. -/
def LineChecks (isAlphanumeric : Char → Bool) (width : Nat) (argsets : BTreeMap ArgSet)
    (s : ParseState) (line : Text) : Prop :=
  OfAccepted isAlphanumeric (fun _ => Covers isAlphanumeric width line)
    (fun bp attrs _ => PatternChecks isAlphanumeric width argsets s line bp attrs) width s line

theorem ofAccepted_congr {isAlphanumeric : Char → Bool} {width : Nat} {s : ParseState}
    {line : Text} {f f' : BitPattern → Prop}
    {g g' : BitPattern → BTreeMap FieldMapping → Pattern → Prop}
    (hf : ∀ bp, parseBitTokens isAlphanumeric (bitTokens isAlphanumeric line) width = .ok bp →
      (f bp ↔ f' bp))
    (hg : ∀ bp attrs p,
      parseBitTokens isAlphanumeric (bitTokens isAlphanumeric line) width = .ok bp →
      parseAttrs (attrTokens isAlphanumeric line) s.fields = .ok attrs →
      (parsePattern isAlphanumeric line s.formats s.fields s.autoArgs width).map Prod.fst = .ok p →
      (g bp attrs.2 p ↔ g' bp attrs.2 p)) :
    OfAccepted isAlphanumeric f g width s line ↔ OfAccepted isAlphanumeric f' g' width s line := by
  unfold OfAccepted
  split
  case h_8 => exact forall₂_congr hf
  case h_9 =>
    refine forall_congr' fun bp => forall_congr' fun attrs => forall_congr' fun p => ?_
    exact forall₃_congr (hg bp attrs p)
  all_goals exact Iff.rfl

theorem lineWellFormed_iff {isAlphanumeric : Char → Bool} {width : Nat} (hw : width < 2 ^ 32)
    (argsets : BTreeMap ArgSet) (s : ParseState) (line : Text) :
    LineWellFormed isAlphanumeric width argsets s line ↔
      LineChecks isAlphanumeric width argsets s line := by
  apply ofAccepted_congr
  · intro bp hbp
    exact ⟨fun h => h.covers, fun h => ⟨h, inside_of_covers hw h hbp⟩⟩
  · intro bp attrs p hbp hattrs hp
    constructor
    · exact fun h => ⟨h.covers, h.agrees, (bound_iff hbp hattrs hp).mp h.bound⟩
    · exact fun h => ⟨h.covers, inside_of_covers hw h.covers hbp, h.agrees,
        (bound_iff hbp hattrs hp).mpr h.kept⟩

end TcgRs.Analysis.MalformedPatterns
