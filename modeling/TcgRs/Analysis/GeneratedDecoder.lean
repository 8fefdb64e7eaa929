import TcgRs.Analysis.DecodeFileFacts
import TcgRs.Analysis.FieldExtraction

/-!
# The generated decoder means what the decode file says

The decode function calls what the first matching pattern asks for, with the values of its
arguments.  The generator gives such a decoder exactly if every field has a segment and every field
that is referred to is defined.
-/

set_option autoImplicit false

namespace TcgRs.Analysis.GeneratedDecoder

open TcgRs.Model.Decode TcgRs.Interface.EmittedCode TcgRs.Interface.DecodeMeaning
open TcgRs.Library.BitFields TcgRs.Library.Traversal
open TcgRs.Analysis.DecodeFileFacts TcgRs.Analysis.FieldExtraction

/-! ## Calls of extraction functions -/

/-- The extraction functions are those of the fields, in order. -/
abbrev Emitted (fields : BTreeMap Field) (w : Nat) (extracts : List ExtractFn) : Prop :=
  List.Forall₂ (fun field fn => emitExtractField field w = some fn) fields.values extracts

section
variable {w : Nat} {fields : BTreeMap Field} {extracts : List ExtractFn}

/-- A name finds the function of the field that is stored under it. -/
theorem find?_extract (hnamed : ∀ e ∈ fields, e.1 = e.2.name) (h : Emitted fields w extracts)
    (r : String) :
    (fields.get r = none ∧ extracts.find? (·.name == r) = none) ∨
      ∃ field ∈ fields.values, ∃ fn, fields.get r = some field ∧
        extracts.find? (·.name == r) = some fn ∧ emitExtractField field w = some fn := by
  induction fields generalizing extracts with
  | nil =>
    cases h
    exact Or.inl ⟨rfl, rfl⟩
  | cons e fields ih =>
    cases h with
    | cons hfn hrest =>
      rename_i fn fns
      have hname : fn.name = e.1 :=
        (emitExtractField_name hfn).trans (hnamed e (List.mem_cons_self ..)).symm
      by_cases hr : e.1 = r
      · right
        refine ⟨e.2, List.mem_cons_self .., fn, ?_, ?_, hfn⟩
        · unfold BTreeMap.get
          rw [List.lookup_cons, ← hr, beq_self_eq_true]
        · rw [List.find?_cons, hname, hr, beq_self_eq_true]
      · have hget : BTreeMap.get (e :: fields) r = BTreeMap.get fields r := by
          unfold BTreeMap.get
          rw [List.lookup_cons, beq_false_of_ne (Ne.symm hr)]
        have hfind : (fn :: fns).find? (·.name == r) = fns.find? (·.name == r) := by
          rw [List.find?_cons, hname, beq_false_of_ne hr]
        rw [hget, hfind]
        rcases ih (fun e he => hnamed e (List.mem_cons_of_mem _ he)) hrest with h | h
        · exact Or.inl h
        · obtain ⟨field, hmem, found⟩ := h
          exact Or.inr ⟨field, List.mem_cons_of_mem _ hmem, found⟩

theorem extract_mem_iff (hnamed : ∀ e ∈ fields, e.1 = e.2.name) (h : Emitted fields w extracts)
    (r : String) : r ∈ extracts.map (·.name) ↔ (fields.get r).isSome := by
  rcases find?_extract hnamed h r with ⟨hget, hfind⟩ | ⟨field, _, fn, hget, hfind, _⟩
  · have hnone := List.find?_eq_none.mp hfind
    simp only [hget, Option.isSome_none, Bool.false_eq_true, iff_false, List.mem_map, not_exists,
      not_and]
    intro fn hmem hname
    exact hnone fn hmem (beq_iff_eq.mpr hname)
  · have htest := List.find?_some hfind
    have hname : fn.name = r := beq_iff_eq.mp htest
    simp only [hget, Option.isSome_some, iff_true]
    exact List.mem_map.mpr ⟨fn, List.mem_of_find?_eq_some hfind, hname⟩

/-- A call of an extraction function returns the value of the field. -/
theorem runCall_eq (hw : w = 16 ∨ w = 32) (hnamed : ∀ e ∈ fields, e.1 = e.2.name)
    (h : Emitted fields w extracts)
    (hin : ∀ f ∈ fields.values, ∀ s ∈ f.segments, SegmentInside w s) (arms : List Arm)
    (insn : BitVec w) (r : String) :
    runCall (wordAs insn) ⟨insnTyOf w, extracts, arms⟩ r =
      BitVec.ofInt 64 ((fields.get r).elim 0 (fieldValue insn.toNat)) := by
  unfold runCall
  rcases find?_extract hnamed h r with ⟨hget, hfind⟩ | ⟨field, hmem, fn, hget, hfind, hemit⟩
  · simp only [hfind, hget, Option.elim_none]
    rfl
  · simp only [hfind, hget, Option.elim_some]
    exact runExtract_eq hw hemit (hin field hmem) insn _

end

/-! ## Arguments -/

section
variable {w : Nat} (hw : w = 16 ∨ w = 32)
include hw

theorem emitFieldExpr_eval {mapping : FieldMapping} {e : Expr}
    (he : emitFieldExpr mapping w = some e) (hin : MappingInside w mapping)
    (fields : BTreeMap Field) (insn : BitVec w) (fns : String → BitVec 64)
    (hfns : ∀ r, fns r = BitVec.ofInt 64 ((fields.get r).elim 0 (fieldValue insn.toNat))) :
    (eval (wordAs insn) fns (wordAs insn) e).bits =
      BitVec.ofInt 64 (mappingValue fields insn.toNat mapping) := by
  cases mapping with
  | fieldRef r =>
    cases he
    exact hfns r
  | inline pos len signed =>
    obtain ⟨_, hunsigned⟩ := hin
    simp only [emitFieldExpr, hunsigned, Bool.false_eq_true, if_false] at he
    obtain ⟨bits, hbits, he⟩ := Option.bind_eq_some_iff.mp he
    cases he
    simp only [eval, emitUnsigned_eval hw hbits, fit_i64]
    rfl
  | const c =>
    cases he
    rfl

theorem emitArg_eval {p : Pattern} {af : String} {a : String × Expr}
    (ha : emitArg p w af = some a) (hin : MapInside w p.fieldMap) (fields : BTreeMap Field)
    (insn : BitVec w) (fns : String → BitVec 64)
    (hfns : ∀ r, fns r = BitVec.ofInt 64 ((fields.get r).elim 0 (fieldValue insn.toNat))) :
    (a.1, (eval (wordAs insn) fns (wordAs insn) a.2).bits) =
      (af, BitVec.ofInt 64 (argValue fields insn.toNat p af)) := by
  unfold emitArg at ha
  unfold argValue
  split at ha
  case h_1 mapping hget =>
    obtain ⟨e, he, ha⟩ := Option.bind_eq_some_iff.mp ha
    cases ha
    rw [hget, Option.elim_some,
      emitFieldExpr_eval hw he (hin _ (mem_of_get hget)) fields insn fns hfns]
  case h_2 hget =>
    cases ha
    rw [hget]
    rfl

/-- An argument is an `i64` exactly if the function that it calls exists. -/
theorem emitArg_typeOf {p : Pattern} {af : String} {a : String × Expr}
    (ha : emitArg p w af = some a) (hin : MapInside w p.fieldMap) (fns : List String) :
    typeOf (insnTyOf w) (insnTyOf w) fns a.2 = some .i64 ↔
      ∀ r, p.fieldMap.get af = some (.fieldRef r) → r ∈ fns := by
  unfold emitArg at ha
  split at ha
  case h_1 mapping hget =>
    obtain ⟨e, he, ha⟩ := Option.bind_eq_some_iff.mp ha
    cases ha
    have hinside := hin _ (mem_of_get hget)
    rw [hget]
    cases mapping with
    | fieldRef r =>
      cases he
      simp [typeOf]
    | inline pos len signed =>
      obtain ⟨hplace, hunsigned⟩ := hinside
      simp only [emitFieldExpr, hunsigned, Bool.false_eq_true, if_false] at he
      obtain ⟨bits, hbits, he⟩ := Option.bind_eq_some_iff.mp he
      cases he
      simp [typeOf, emitUnsigned_typeOf hw hbits hplace.1 hplace.2.1]
    | const c =>
      cases he
      obtain ⟨hlow, hhigh⟩ := hinside
      have hrange : -2 ^ 63 ≤ c ∧ c < 2 ^ 63 := by omega
      exact ⟨fun _ _ h => (by cases h), fun _ => if_pos hrange⟩
  case h_2 hget =>
    cases ha
    simp [typeOf, hget]

theorem args_eval {p : Pattern} {afs : List String} {args : List (String × Expr)}
    (h : List.Forall₂ (fun af a => emitArg p w af = some a) afs args)
    (hin : MapInside w p.fieldMap) (fields : BTreeMap Field) (insn : BitVec w)
    (fns : String → BitVec 64)
    (hfns : ∀ r, fns r = BitVec.ofInt 64 ((fields.get r).elim 0 (fieldValue insn.toNat))) :
    afs.map (fun af => (af, BitVec.ofInt 64 (argValue fields insn.toNat p af))) =
      args.map fun a => (a.1, (eval (wordAs insn) fns (wordAs insn) a.2).bits) := by
  induction h with
  | nil => rfl
  | cons hhead _ ih =>
    rw [List.map_cons, List.map_cons, ih, emitArg_eval hw hhead hin fields insn fns hfns]

/-! ## Tests -/

theorem matches_iff (insn : BitVec w) (p : Pattern) :
    Matches insn p ↔ insn.toNat &&& p.fixedmask.toNat = p.fixedbits.toNat := by
  have hle : w ≤ 32 := by omega
  unfold Matches
  rw [← BitVec.toNat_inj, BitVec.toNat_and, BitVec.toNat_setWidth_of_le hle]

theorem fullMask_toNat : (fullMask w).toNat = 2 ^ w - 1 := by
  rcases hw with rfl | rfl <;> rfl

/-- The emitted test is the one that the pattern asks for. -/
theorem armTest_eq (p : Pattern) (args : List (String × Expr)) (insn : BitVec w) :
    armTest (wordAs insn)
      ⟨if p.fixedmask = fullMask w then none else some p.fixedmask.toNat, p.fixedbits.toNat,
        p.name, args⟩ = decide (Matches insn p) := by
  have hle : w ≤ 64 := by omega
  have hword : ∀ b : BitVec 32, (BitVec.ofNat 64 b.toNat).toNat = b.toNat := by
    intro b
    rw [BitVec.toNat_ofNat]
    have := b.isLt
    omega
  rw [Bool.eq_iff_iff, decide_eq_true_iff, matches_iff hw]
  unfold armTest
  by_cases hfull : p.fixedmask = fullMask w
  · simp only [if_pos hfull, beq_iff_eq, wordAs]
    rw [← BitVec.toNat_inj, hword, BitVec.toNat_setWidth_of_le hle, hfull, fullMask_toNat hw,
      Nat.and_two_pow_sub_one_eq_mod, Nat.mod_eq_of_lt insn.isLt]
  · simp only [if_neg hfull, beq_iff_eq, wordAs]
    rw [← BitVec.toNat_inj, BitVec.toNat_and, hword, hword, BitVec.toNat_setWidth_of_le hle]

end

/-! ## The decode function -/

/-- A pattern whose inline fields lie in the word can be emitted. -/
theorem exists_emitArm {w : Nat} (argsets : BTreeMap ArgSet) {p : Pattern}
    (hp : PatternInside w p) : ∃ a, emitArm argsets w p = some a := by
  have hargs : ∃ args, (argFields argsets p).mapM (emitArg p w) = some args := by
    rw [exists_mapM_iff]
    intro af _
    unfold emitArg
    split
    case h_1 mapping hget =>
      have hinside := hp.map _ (mem_of_get hget)
      cases mapping with
      | fieldRef r => exact ⟨_, rfl⟩
      | inline pos len signed =>
        obtain ⟨⟨_, _, h31⟩, hunsigned⟩ := hinside
        have hmask : emitUnsigned pos len = some (.mask (.shr .insn pos) (2 ^ len - 1)) :=
          if_pos (by dsimp only at h31; omega)
        simp only [emitFieldExpr, hunsigned, Bool.false_eq_true, if_false, hmask]
        exact ⟨_, rfl⟩
      | const c => exact ⟨_, rfl⟩
    case h_2 => exact ⟨_, rfl⟩
  obtain ⟨args, hargs⟩ := hargs
  exact ⟨_, by rw [emitArm, hargs]; rfl⟩

/-- The arms are those of the patterns, in order. -/
abbrev Armed (parsed : Parsed) (w : Nat) (arms : List Arm) : Prop :=
  List.Forall₂ (fun p a => emitArm parsed.argsets w p = some a) parsed.patterns arms

section
variable {w : Nat} {parsed : Parsed} {extracts : List ExtractFn} {arms : List Arm}
  (hw : w = 16 ∨ w = 32) (hnamed : ∀ e ∈ parsed.fields, e.1 = e.2.name)
  (hpatterns : ∀ p ∈ parsed.patterns, PatternInside w p)
  (hsegments : ∀ f ∈ parsed.fields.values, ∀ s ∈ f.segments, SegmentInside w s)
  (hextracts : Emitted parsed.fields w extracts) (harms : Armed parsed w arms)
include hw hnamed hpatterns hsegments hextracts harms

/-- The decode function makes the call of the first matching pattern. -/
theorem run_eq_meaning (insn : BitVec w) :
    run ⟨insnTyOf w, extracts, arms⟩ insn = meaning parsed insn := by
  symm
  apply find?_map_eq harms
  · intro p _ a ha
    obtain ⟨args, _, ha⟩ := Option.bind_eq_some_iff.mp ha
    cases ha
    exact (armTest_eq hw p args insn).symm
  · intro p hp a ha
    obtain ⟨args, hargs, ha⟩ := Option.bind_eq_some_iff.mp ha
    cases ha
    have hcall := runCall_eq hw hnamed hextracts hsegments arms insn
    exact Prod.ext rfl
      (args_eval hw (mapM_eq_some_iff.mp hargs) (hpatterns p hp).map parsed.fields insn _ hcall)

/-- The code compiles exactly if the fields that are referred to are defined. -/
theorem compiles_iff :
    Compiles ⟨insnTyOf w, extracts, arms⟩ ↔
      ∀ p ∈ parsed.patterns, ∀ af ∈ argFields parsed.argsets p, ∀ r,
        p.fieldMap.get af = some (.fieldRef r) → (parsed.fields.get r).isSome := by
  constructor
  · intro h p hp af haf r hget
    obtain ⟨a, ha, harm⟩ := forall₂_exists_right harms hp
    obtain ⟨args, hargs, harm⟩ := Option.bind_eq_some_iff.mp harm
    cases harm
    obtain ⟨e, he, hemit⟩ := forall₂_exists_right (mapM_eq_some_iff.mp hargs) haf
    have hcheck := (h.2 _ ha).2.2 e he
    have hmem := (emitArg_typeOf hw hemit (hpatterns p hp).map _).mp hcheck r hget
    exact (extract_mem_iff hnamed hextracts r).mp hmem
  · intro h
    constructor
    · intro fn hfn
      obtain ⟨field, hfield, hemit⟩ := forall₂_exists_left hextracts hfn
      exact extract_checks hw hemit (hsegments field hfield) _
    · intro a ha
      obtain ⟨p, hp, harm⟩ := forall₂_exists_left harms ha
      obtain ⟨args, hargs, harm⟩ := Option.bind_eq_some_iff.mp harm
      cases harm
      have hinside := hpatterns p hp
      refine ⟨?_, ?_, ?_⟩
      · intro m hm
        rw [literalFits_insnTy hw]
        split at hm
        · cases hm
        · cases hm
          exact decide_eq_true hinside.mask
      · rw [literalFits_insnTy hw]
        exact decide_eq_true hinside.bits
      · intro e he
        obtain ⟨af, haf, hemit⟩ := forall₂_exists_left (mapM_eq_some_iff.mp hargs) he
        rw [emitArg_typeOf hw hemit hinside.map]
        intro r hget
        exact (extract_mem_iff hnamed hextracts r).mpr (h p hp af haf r hget)

end

/-- An accepted file whose fields are complete is decoded as it says. -/
theorem decodesAs_of_complete {isAlphanumeric : Char → Bool} {input : Text} {parsed : Parsed}
    {width : Nat} (hw : width = 16 ∨ width = 32)
    (hparse : parseWithWidth isAlphanumeric input width = .ok parsed)
    (hin : InsideWord isAlphanumeric input parsed width) (hcomplete : FieldsComplete parsed) :
    DecodesAs parsed width := by
  obtain ⟨hsegments, hinline⟩ := hin
  obtain ⟨hnamed, hpatterns⟩ := parseWithWidth_inside hw hinline hparse
  obtain ⟨hsome, hdefined⟩ := hcomplete
  obtain ⟨extracts, hextracts⟩ := exists_mapM_iff.mpr fun f hf =>
    (exists_emitExtractField_iff (hsegments f hf)).mpr (hsome f hf)
  obtain ⟨arms, harms⟩ := exists_mapM_iff.mpr fun p hp =>
    exists_emitArm parsed.argsets (hpatterns p hp)
  have hfields := mapM_eq_some_iff.mp hextracts
  have hall := mapM_eq_some_iff.mp harms
  refine ⟨⟨insnTyOf width, extracts, arms⟩, ?_, ?_, ?_⟩
  · simp only [emitDecoder, hextracts, harms, Option.bind_eq_bind, Option.bind_some]
    rfl
  · exact (compiles_iff hw hnamed hpatterns hsegments hfields hall).mpr hdefined
  · intro insn
    exact run_eq_meaning hw hnamed hpatterns hsegments hfields hall insn

/-- The decoder that is written for such a file. -/
theorem exists_generated {isAlphanumeric : Char → Bool} {input : Text} {parsed : Parsed}
    {width : Nat} (hparse : parseWithWidth isAlphanumeric input width = .ok parsed)
    (hdecodes : DecodesAs parsed width) :
    ∃ code, generateWithWidth isAlphanumeric input width = .ok (some code) ∧
      ∀ insn : BitVec width, run code insn = meaning parsed insn := by
  obtain ⟨code, hcode, _, hrun⟩ := hdecodes
  refine ⟨code, ?_, hrun⟩
  unfold generateWithWidth
  rw [hparse, ← hcode]
  rfl

/-- Two conditional branches with a scattered immediate, and what the parser makes of them. -/
def branchFile : Text :=
  ("\n".intercalate ["%rs1 15:5", "%imm_b 31:s1 7:1 25:6 8:4 !function=ex_shift_1", "&b imm rs1",
    "@b ................. ... ..... ....... &b imm=%imm_b %rs1",
    "beqz ....... 00000 ..... 000 ..... 1100011 @b",
    "bnez ....... 00000 ..... 001 ..... 1100011 @b"]).toList

def branchParsed : Parsed where
  fields := [
    ("imm_b", ⟨"imm_b", [⟨31, 1, true⟩, ⟨7, 1, false⟩, ⟨25, 6, false⟩, ⟨8, 4, false⟩],
      some "ex_shift_1"⟩),
    ("rs1", ⟨"rs1", [⟨15, 5, false⟩], none⟩)]
  argsets := [("b", ⟨"b", ["imm", "rs1"], false⟩)]
  patterns := [
    ⟨"beqz", 0x63, 0x1f0707f, "b", [("imm", .fieldRef "imm_b"), ("rs1", .fieldRef "rs1")]⟩,
    ⟨"bnez", 0x1063, 0x1f0707f, "b", [("imm", .fieldRef "imm_b"), ("rs1", .fieldRef "rs1")]⟩]

end TcgRs.Analysis.GeneratedDecoder
