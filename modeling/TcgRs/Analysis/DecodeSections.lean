import TcgRs.Interface.DecodeMeaning
import TcgRs.Library.Traversal

/-!
# Decode files section by section

A file whose lines need no trimming and no joining is read line by line: fields, argument sets,
formats and patterns, each from the definitions before it.
-/

set_option autoImplicit false

namespace TcgRs.Analysis.DecodeSections

open TcgRs.Model.Decode TcgRs.Interface.DecodeMeaning TcgRs.Library.Traversal

/-! ## Lines -/

/-- A logical line as the file has it: no comment, no blanks around it and no continuation. -/
structure Plain (l : Text) : Prop where
  some_char : l ≠ []
  one_line : '\n' ∉ l
  continued : l.getLast? ≠ some '\\'
  returned : l.getLast? ≠ some '\r'
  trimmed : trim (l.takeWhile (· != '#')) = l

instance (l : Text) : Decidable (Plain l) :=
  decidable_of_iff
    (l ≠ [] ∧ '\n' ∉ l ∧ l.getLast? ≠ some '\\' ∧ l.getLast? ≠ some '\r' ∧
      trim (l.takeWhile (· != '#')) = l)
    ⟨fun ⟨h₁, h₂, h₃, h₄, h₅⟩ => ⟨h₁, h₂, h₃, h₄, h₅⟩, fun ⟨h₁, h₂, h₃, h₄, h₅⟩ => ⟨h₁, h₂, h₃, h₄, h₅⟩⟩

theorem stripReturn_plain {l : Text} (h : l.getLast? ≠ some '\r') : stripReturn l = l := by
  unfold stripReturn
  split
  case h_1 rest heq =>
    rw [← List.head?_reverse, heq] at h
    exact absurd rfl h
  case h_2 => rfl

theorem lines_intercalate {ls : List Text} (hls : ls ≠ []) (h : ∀ l ∈ ls, Plain l) :
    lines (['\n'].intercalate ls) = ls := by
  have hsplit : (['\n'].intercalate ls).splitOn '\n' = ls :=
    List.splitOn_intercalate '\n' (fun l hl => (h l hl).one_line) hls
  unfold lines
  rw [hsplit]
  cases hrev : ls.reverse with
  | nil => exact absurd (List.reverse_eq_nil_iff.mp hrev) hls
  | cons last rest =>
    have hls' : ls = rest.reverse ++ [last] := by
      rw [← List.reverse_reverse ls, hrev, List.reverse_cons]
    have hlast : last.isEmpty = false := by
      have hmem : last ∈ ls := by rw [hls']; simp
      simpa using (h last hmem).some_char
    have hrest : rest.map stripReturn = rest := by
      rw [List.map_congr_left (g := id), List.map_id]
      intro l hl
      have hmem : l ∈ ls := by rw [hls']; simp [hl]
      exact stripReturn_plain (h l hmem).returned
    simp only [hrest, hlast, Bool.false_eq_true, if_false]
    exact hls'.symm

theorem mergeLine_plain {s l : Text} (h : Plain l) :
    mergeLine (s, false) l = (l.reverse ++ if s.isEmpty then [] else '\n' :: s, false) := by
  have hhead : ∀ rest, l.reverse ++ (if s.isEmpty then [] else '\n' :: s) ≠ '\\' :: rest := by
    intro rest heq
    cases hrev : l.reverse with
    | nil => exact h.some_char (List.reverse_eq_nil_iff.mp hrev)
    | cons c cs =>
      rw [hrev, List.cons_append, List.cons.injEq] at heq
      apply h.continued
      rw [← List.head?_reverse, hrev, heq.1]
      rfl
  unfold mergeLine
  simp only [Bool.false_eq_true, if_false]

theorem intercalate_append (a b : Text) (ls : List Text) :
    ['\n'].intercalate ((a ++ '\n' :: b) :: ls) = a ++ '\n' :: ['\n'].intercalate (b :: ls) := by
  cases ls with
  | nil => simp
  | cons l ls => simp [List.intercalate_cons_cons]

/-- Joining the lines of a plain file gives the file back. -/
theorem foldl_mergeLine_plain {ls : List Text} {s : Text} (hs : s ≠ []) (h : ∀ l ∈ ls, Plain l) :
    (ls.foldl mergeLine (s, false)).1.reverse = ['\n'].intercalate (s.reverse :: ls) := by
  induction ls generalizing s with
  | nil => simp
  | cons l ls ih =>
    have hempty : s.isEmpty = false := by simpa using hs
    rw [List.foldl_cons, mergeLine_plain (h l (List.mem_cons_self ..)), hempty]
    simp only [Bool.false_eq_true, if_false]
    rw [ih (by simp) fun l' hl' => h l' (List.mem_cons_of_mem _ hl'), List.reverse_append,
      List.reverse_cons, List.reverse_reverse, List.append_assoc, List.singleton_append,
      intercalate_append, List.intercalate_cons_cons]
    simp

theorem mergeContinuations_intercalate {ls : List Text} (hls : ls ≠ []) (h : ∀ l ∈ ls, Plain l) :
    mergeContinuations (['\n'].intercalate ls) = ['\n'].intercalate ls := by
  unfold mergeContinuations
  rw [lines_intercalate hls h]
  cases ls with
  | nil => exact absurd rfl hls
  | cons l ls =>
    have hl := h l (List.mem_cons_self ..)
    have hne : l.reverse ≠ [] := fun heq => hl.some_char (List.reverse_eq_nil_iff.mp heq)
    rw [List.foldl_cons, mergeLine_plain hl]
    simp only [List.isEmpty_nil, if_true, List.append_nil]
    rw [foldl_mergeLine_plain hne fun l' hl' => h l' (List.mem_cons_of_mem _ hl'),
      List.reverse_reverse]

/-- The parser reads a plain file line by line. -/
theorem parseWithWidth_plain (isAlphanumeric : Char → Bool) {ls : List Text} (hls : ls ≠ [])
    (h : ∀ l ∈ ls, Plain l) (width : Nat) :
    parseWithWidth isAlphanumeric (['\n'].intercalate ls) width =
      (ls.foldlM (parseLine isAlphanumeric width) ⟨[], [], [], [], []⟩).map fun s =>
        ⟨s.fields, s.argsets.extend s.autoArgs, s.patterns⟩ := by
  unfold parseWithWidth
  rw [mergeContinuations_intercalate hls h, lines_intercalate hls h]
  cases ls.foldlM (parseLine isAlphanumeric width) ⟨[], [], [], [], []⟩ <;> rfl

theorem patternLines_plain {ls : List Text} (hls : ls ≠ []) (h : ∀ l ∈ ls, Plain l) :
    patternLines (['\n'].intercalate ls) = ls.filter fun line =>
      match line.head? with
      | none => false
      | some c => c ∉ ['%', '&', '{', '}', '[', ']'] := by
  unfold patternLines
  rw [mergeContinuations_intercalate hls h, lines_intercalate hls h]
  congr 1
  rw [List.map_congr_left (g := id), List.map_id]
  intro l hl
  exact (h l hl).trimmed

/-! ## Sections -/

section
variable {isAlphanumeric : Char → Bool} {width : Nat}

/-- What a line of fields defines. -/
def DefinesField (l : Text) (f : Field) : Prop :=
  Plain l ∧ l.head? = some '%' ∧ parseField l = .ok f

def DefinesArgset (l : Text) (a : ArgSet) : Prop :=
  Plain l ∧ l.head? = some '&' ∧ parseArgset l = a

variable (isAlphanumeric width) in
def DefinesFormat (fields : BTreeMap Field) (l : Text) (f : Format) : Prop :=
  Plain l ∧ l.head? = some '@' ∧ InlineInside width (bitTokens isAlphanumeric l) ∧
    parseFormat isAlphanumeric l fields width = .ok (f.name, f)

variable (isAlphanumeric width) in
/-- A pattern, and the argument set that is made up for it. -/
def DefinesPattern (formats : BTreeMap Format) (fields : BTreeMap Field) (l : Text)
    (r : Pattern × BTreeMap ArgSet) : Prop :=
  Plain l ∧ (l.head?.all fun c => c ∉ ['%', '&', '@', '{', '}', '[', ']']) = true ∧
    InlineInside width (bitTokens isAlphanumeric l) ∧
    parsePattern isAlphanumeric l formats fields [] width = .ok r

instance (l : Text) (f : Field) : Decidable (DefinesField l f) :=
  inferInstanceAs (Decidable (_ ∧ _ ∧ _))

instance (l : Text) (a : ArgSet) : Decidable (DefinesArgset l a) :=
  inferInstanceAs (Decidable (_ ∧ _ ∧ _))

instance (fields : BTreeMap Field) (l : Text) (f : Format) :
    Decidable (DefinesFormat isAlphanumeric width fields l f) :=
  inferInstanceAs (Decidable (_ ∧ _ ∧ _ ∧ _))

instance (formats : BTreeMap Format) (fields : BTreeMap Field) (l : Text)
    (r : Pattern × BTreeMap ArgSet) :
    Decidable (DefinesPattern isAlphanumeric width formats fields l r) :=
  inferInstanceAs (Decidable (_ ∧ _ ∧ _ ∧ _))

theorem parseLine_field {l : Text} {f : Field} (h : DefinesField l f) (s : ParseState) :
    parseLine isAlphanumeric width s l = .ok { s with fields := s.fields.insert f.name f } := by
  obtain ⟨hplain, hhead, hparse⟩ := h
  obtain ⟨rest, rfl⟩ := List.head?_eq_some_iff.mp hhead
  unfold parseLine
  rw [hplain.trimmed]
  simp only [hparse]
  rfl

theorem parseLine_argset {l : Text} {a : ArgSet} (h : DefinesArgset l a) (s : ParseState) :
    parseLine isAlphanumeric width s l = .ok { s with argsets := s.argsets.insert a.name a } := by
  obtain ⟨hplain, hhead, hparse⟩ := h
  obtain ⟨rest, rfl⟩ := List.head?_eq_some_iff.mp hhead
  unfold parseLine
  rw [hplain.trimmed]
  simp only [hparse]

theorem parseLine_format {l : Text} {f : Format} (s : ParseState)
    (h : DefinesFormat isAlphanumeric width s.fields l f) :
    parseLine isAlphanumeric width s l = .ok { s with formats := s.formats.insert f.name f } := by
  obtain ⟨hplain, hhead, _, hparse⟩ := h
  obtain ⟨rest, rfl⟩ := List.head?_eq_some_iff.mp hhead
  unfold parseLine
  rw [hplain.trimmed]
  simp only [hparse]
  rfl

/-- The argument sets made up so far do not matter to a pattern. -/
theorem parsePattern_autoArgs {l : Text} {formats : BTreeMap Format} {fields : BTreeMap Field}
    {r : Pattern × BTreeMap ArgSet}
    (h : parsePattern isAlphanumeric l formats fields [] width = .ok r) (autoArgs : BTreeMap ArgSet) :
    parsePattern isAlphanumeric l formats fields autoArgs width = .ok (r.1, autoArgs.extend r.2) := by
  unfold parsePattern at h ⊢
  dsimp only at h ⊢
  generalize parseBitTokens isAlphanumeric _ width = bits at h ⊢
  generalize parseAttrs _ fields = attrs at h ⊢
  cases bits with
  | error e => cases h
  | ok bp =>
    cases attrs with
    | error e =>
      simp only [bind, Except.bind] at h
      split at h
      · split at h <;> cases h
      · cases h
    | ok attrs =>
      simp only [bind, Except.bind, pure, Except.pure] at h ⊢
      split at h
      case h_1 =>
        split at h
        · cases h
        · cases h
          rfl
      case h_2 =>
        split at h
        case isTrue hauto =>
          cases h
          rw [if_pos hauto]
          rfl
        case isFalse hauto =>
          cases h
          rw [if_neg hauto]
          rfl

theorem parseLine_pattern {l : Text} {r : Pattern × BTreeMap ArgSet} (s : ParseState)
    (h : DefinesPattern isAlphanumeric width s.formats s.fields l r) :
    parseLine isAlphanumeric width s l =
      .ok { s with patterns := s.patterns ++ [r.1], autoArgs := s.autoArgs.extend r.2 } := by
  obtain ⟨hplain, hhead, _, hparse⟩ := h
  unfold parseLine
  rw [hplain.trimmed]
  cases l with
  | nil => exact absurd rfl hplain.some_char
  | cons c rest =>
    simp only [List.head?_cons, Option.all_some, decide_eq_true_eq, List.mem_cons,
      List.not_mem_nil, or_false, not_or] at hhead
    obtain ⟨h₁, h₂, h₃, h₄, h₅, h₆, h₇⟩ := hhead
    simp only [parsePattern_autoArgs hparse]
    split
    case h_9 => rfl
    case h_1 heq => cases heq
    all_goals
      rename_i heq
      cases heq
      contradiction

/-! ## Files -/

def fieldTable (fs : List Field) : BTreeMap Field := fs.foldl (fun m f => m.insert f.name f) []

def argsetTable (as : List ArgSet) : BTreeMap ArgSet := as.foldl (fun m a => m.insert a.name a) []

def formatTable (fs : List Format) : BTreeMap Format := fs.foldl (fun m f => m.insert f.name f) []

/-- The argument sets that the patterns make up. -/
def autoTable (ps : List (Pattern × BTreeMap ArgSet)) : BTreeMap ArgSet :=
  ps.foldl (fun m p => m.extend p.2) []

/-- What a file with a section of each kind defines. -/
def sectionsParsed (fs : List Field) (as : List ArgSet) (ps : List (Pattern × BTreeMap ArgSet)) :
    Parsed :=
  ⟨fieldTable fs, (argsetTable as).extend (autoTable ps), ps.map Prod.fst⟩

theorem foldlM_fields {ls : List Text} {fs : List Field} (h : List.Forall₂ DefinesField ls fs)
    (s : ParseState) : ls.foldlM (parseLine isAlphanumeric width) s =
      .ok { s with fields := fs.foldl (fun m f => m.insert f.name f) s.fields } := by
  induction h generalizing s with
  | nil => rfl
  | cons hline _ ih =>
    rw [List.foldlM_cons, parseLine_field hline]
    exact ih _

theorem foldlM_argsets {ls : List Text} {as : List ArgSet} (h : List.Forall₂ DefinesArgset ls as)
    (s : ParseState) : ls.foldlM (parseLine isAlphanumeric width) s =
      .ok { s with argsets := as.foldl (fun m a => m.insert a.name a) s.argsets } := by
  induction h generalizing s with
  | nil => rfl
  | cons hline _ ih =>
    rw [List.foldlM_cons, parseLine_argset hline]
    exact ih _

theorem foldlM_formats {ls : List Text} {os : List Format} (s : ParseState)
    (h : List.Forall₂ (DefinesFormat isAlphanumeric width s.fields) ls os) :
    ls.foldlM (parseLine isAlphanumeric width) s =
      .ok { s with formats := os.foldl (fun m f => m.insert f.name f) s.formats } := by
  induction ls generalizing s os with
  | nil =>
    cases h
    rfl
  | cons l ls ih =>
    cases h with
    | cons hline hrest =>
      rw [List.foldlM_cons, parseLine_format s hline]
      exact ih _ hrest

theorem foldlM_patterns {ls : List Text} {ps : List (Pattern × BTreeMap ArgSet)} (s : ParseState)
    (h : List.Forall₂ (DefinesPattern isAlphanumeric width s.formats s.fields) ls ps) :
    ls.foldlM (parseLine isAlphanumeric width) s =
      .ok { s with
        patterns := s.patterns ++ ps.map Prod.fst
        autoArgs := ps.foldl (fun m p => m.extend p.2) s.autoArgs } := by
  induction ls generalizing s ps with
  | nil =>
    cases h
    simp
    rfl
  | cons l ls ih =>
    cases h with
    | @cons _ p _ ps hline hrest =>
      have hnext := ih { s with
        patterns := s.patterns ++ [p.1]
        autoArgs := s.autoArgs.extend p.2 } hrest
      rw [List.foldlM_cons, parseLine_pattern s hline]
      refine Eq.trans hnext ?_
      simp

section
variable {lf la lo lp : List Text} {fs : List Field} {as : List ArgSet} {os : List Format}
  {ps : List (Pattern × BTreeMap ArgSet)} (hf : List.Forall₂ DefinesField lf fs)
  (ha : List.Forall₂ DefinesArgset la as)
  (ho : List.Forall₂ (DefinesFormat isAlphanumeric width (fieldTable fs)) lo os)
  (hp : List.Forall₂ (DefinesPattern isAlphanumeric width (formatTable os) (fieldTable fs)) lp ps)
include hf ha ho hp

theorem sections_plain : ∀ l ∈ lf ++ la ++ lo ++ lp, Plain l := by
  intro l hl
  simp only [List.mem_append] at hl
  rcases hl with ((hl | hl) | hl) | hl
  · obtain ⟨_, _, h⟩ := forall₂_exists_right hf hl
    exact h.1
  · obtain ⟨_, _, h⟩ := forall₂_exists_right ha hl
    exact h.1
  · obtain ⟨_, _, h⟩ := forall₂_exists_right ho hl
    exact h.1
  · obtain ⟨_, _, h⟩ := forall₂_exists_right hp hl
    exact h.1

/-- A plain file of four sections is parsed section by section. -/
theorem parseWithWidth_sections (hlp : lp ≠ []) :
    parseWithWidth isAlphanumeric (['\n'].intercalate (lf ++ la ++ lo ++ lp)) width =
      .ok (sectionsParsed fs as ps) := by
  rw [parseWithWidth_plain isAlphanumeric (by simp [hlp]) (sections_plain hf ha ho hp)]
  have hrunf : lf.foldlM (parseLine isAlphanumeric width) ⟨[], [], [], [], []⟩ =
      .ok ⟨fieldTable fs, [], [], [], []⟩ := foldlM_fields hf _
  have hruna : la.foldlM (parseLine isAlphanumeric width) ⟨fieldTable fs, [], [], [], []⟩ =
      .ok ⟨fieldTable fs, argsetTable as, [], [], []⟩ := foldlM_argsets ha _
  have hruno := foldlM_formats ⟨fieldTable fs, argsetTable as, [], [], []⟩ ho
  have hrunp := foldlM_patterns ⟨fieldTable fs, argsetTable as, formatTable os, [], []⟩ hp
  simp only [List.foldlM_append, hrunf, bind, Except.bind, hruna, hruno]
  exact congrArg (Except.map _) hrunp

/-- The inline fields of such a file lie inside the word. -/
theorem patternLines_inside (hlp : lp ≠ []) :
    ∀ line ∈ patternLines (['\n'].intercalate (lf ++ la ++ lo ++ lp)),
      InlineInside width (bitTokens isAlphanumeric line) := by
  intro line hline
  rw [patternLines_plain (by simp [hlp]) (sections_plain hf ha ho hp), List.mem_filter] at hline
  obtain ⟨hmem, hkind⟩ := hline
  simp only [List.mem_append] at hmem
  rcases hmem with ((hmem | hmem) | hmem) | hmem
  · obtain ⟨_, _, h⟩ := forall₂_exists_right hf hmem
    rw [h.2.1] at hkind
    exact absurd hkind (by decide)
  · obtain ⟨_, _, h⟩ := forall₂_exists_right ha hmem
    rw [h.2.1] at hkind
    exact absurd hkind (by decide)
  · obtain ⟨_, _, h⟩ := forall₂_exists_right ho hmem
    exact h.2.2.1
  · obtain ⟨_, _, h⟩ := forall₂_exists_right hp hmem
    exact h.2.2.1

end

end

/-! ## Lines in source text -/

/-- Each line of a list of strings reads as the corresponding definition. -/
def LinesAre {β : Type} (R : Text → β → Prop) (ls : List String) (bs : List β) : Prop :=
  List.Forall₂ R (ls.map String.toList) bs

section
variable {β : Type} {R : Text → β → Prop}

theorem LinesAre.nil : LinesAre R [] [] := List.Forall₂.nil

/-- A line is compared as the list of its characters. -/
theorem LinesAre.cons {s : String} {ls : List String} {b : β} {bs : List β} (l : Text)
    (hs : s = String.ofList l) (hline : R l b) (hrest : LinesAre R ls bs) :
    LinesAre R (s :: ls) (b :: bs) := by
  subst hs
  refine List.Forall₂.cons ?_ hrest
  rwa [String.toList_ofList]

end

end TcgRs.Analysis.DecodeSections
