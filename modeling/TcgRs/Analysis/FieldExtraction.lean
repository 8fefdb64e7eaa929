import TcgRs.Interface.DecodeMeaning
import TcgRs.Library.BitFields
import TcgRs.Library.Traversal

/-!
# Extraction functions return the values of their fields

The emitted extraction code, for the two word sizes: one segment, the loop over further segments,
and the transformation at the end.
-/

set_option autoImplicit false

namespace TcgRs.Analysis.FieldExtraction

open TcgRs.Model.Decode TcgRs.Interface.EmittedCode TcgRs.Interface.DecodeMeaning
open TcgRs.Library.BitFields TcgRs.Library.Traversal

/-! ## Values -/

@[simp] theorem fit_i64 (x : BitVec 64) : fit .i64 x = x := by
  simp [fit, isSigned, bitsOf]

/-- The word as a value, at a word size that the generator knows. -/
def wordAs {w : Nat} (insn : BitVec w) : Value := ⟨insnTyOf w, insn.setWidth 64⟩

/-- A field of one segment. -/
theorem segmentsValue_singleton (insn : Nat) (s : FieldSegment) :
    segmentsValue insn [s] =
      if s.signed then (bitsAt insn s.pos s.len : Int).bmod (2 ^ s.len)
      else bitsAt insn s.pos s.len := by
  simp [segmentsValue, concatBits, totalLen]

section
variable {w : Nat} (hw : w = 16 ∨ w = 32)
include hw

theorem bitsOf_insnTy : bitsOf (insnTyOf w) = w := by
  rcases hw with rfl | rfl <;> rfl

theorem isSigned_insnTy : isSigned (insnTyOf w) = false := by
  rcases hw with rfl | rfl <;> rfl

theorem bitsOf_signedTy : bitsOf (signedTyOf w) = w := by
  rcases hw with rfl | rfl <;> rfl

theorem isSigned_signedTy : isSigned (signedTyOf w) = true := by
  rcases hw with rfl | rfl <;> rfl

theorem fit_signedTy (x : BitVec 64) : fit (signedTyOf w) x = (x.setWidth w).signExtend 64 := by
  rcases hw with rfl | rfl <;> rfl

theorem literalFits_insnTy (n : Nat) : literalFits (insnTyOf w) n = decide (n < 2 ^ w) := by
  simp only [literalFits, isSigned_insnTy hw, bitsOf_insnTy hw]
  rfl

/-! ## One segment -/

/-- The emitted expression of an unsigned segment. -/
theorem emitUnsigned_eval {pos len : Nat} {e : Expr} (he : emitUnsigned pos len = some e)
    (insn : BitVec w) (fns : String → BitVec 64) (val : Value) :
    eval (wordAs insn) fns val e =
      ⟨insnTyOf w, BitVec.ofNat 64 (bitsAt insn.toNat pos len)⟩ := by
  unfold emitUnsigned at he
  split at he
  case isTrue hlen =>
    cases he
    have hle : w ≤ 64 := by omega
    simp only [eval, wordAs, isSigned_insnTy hw, Bool.false_eq_true, if_false,
      ushiftRight_and_mask insn 64 pos len hle (by omega)]
    rfl
  case isFalse => cases he

theorem emitUnsigned_typeOf {pos len : Nat} {e : Expr} (he : emitUnsigned pos len = some e)
    (hin : pos + len ≤ w) (hlen : 1 ≤ len) (val : IntTy) (fns : List String) :
    typeOf (insnTyOf w) val fns e = some (insnTyOf w) := by
  unfold emitUnsigned at he
  split at he
  case isTrue =>
    cases he
    have hpos : pos < w := by omega
    have hmask : 2 ^ len - 1 < 2 ^ w := by
      have := Nat.pow_le_pow_right (show 0 < 2 by omega) (show len ≤ w by omega)
      have := Nat.two_pow_pos len
      omega
    simp only [typeOf, bitsOf_insnTy hw, literalFits_insnTy hw, Option.filter_some, hpos, hmask,
      decide_true, if_true]
  case isFalse => cases he

/-- The emitted expression of a signed segment: two shifts, or one at the top of the word. -/
theorem emitSigned_eval {pos len : Nat} {e : Expr} (he : emitSigned pos len w = some e)
    (hlen : 1 ≤ len) (insn : BitVec w) (fns : String → BitVec 64) (val : Value) :
    eval (wordAs insn) fns val e =
      ⟨signedTyOf w, BitVec.ofInt 64 ((bitsAt insn.toNat pos len : Int).bmod (2 ^ len))⟩ := by
  unfold emitSigned at he
  split at he
  case isFalse => cases he
  case isTrue hin =>
    have hle : w ≤ 64 := by omega
    have hword : (insn.setWidth 64).setWidth w = insn := by
      rw [BitVec.setWidth_setWidth_of_le insn hle, BitVec.setWidth_eq]
    have hvalue := shifts_eq_bmod insn 64 pos len hlen hin hle
    dsimp only at he
    split at he
    case isTrue hshift =>
      cases he
      have hback : (insn.signExtend 64).setWidth w = insn := by
        simpa using setWidth_shiftLeft_signExtend insn 64 0 hle
      rw [hshift, BitVec.shiftLeft_zero, hback] at hvalue
      simp only [eval, wordAs, fit_signedTy hw, hword, isSigned_signedTy hw, if_true, hvalue]
      rfl
    case isFalse =>
      cases he
      simp only [eval, wordAs, fit_signedTy hw, hword, isSigned_signedTy hw, if_true, hvalue]
      rfl

theorem emitSigned_typeOf {pos len : Nat} {e : Expr} (he : emitSigned pos len w = some e)
    (hlen : 1 ≤ len) (val : IntTy) (fns : List String) :
    typeOf (insnTyOf w) val fns e = some (signedTyOf w) := by
  unfold emitSigned at he
  split at he
  case isFalse => cases he
  case isTrue hin =>
    have hl : w - pos - len < w := by omega
    have hr : w - len < w := by omega
    dsimp only at he
    split at he
    case isTrue =>
      cases he
      simp only [typeOf, Option.map_some, Option.filter_some, bitsOf_signedTy hw, hr, decide_true,
        if_true]
    case isFalse =>
      cases he
      simp only [typeOf, Option.map_some, Option.filter_some, bitsOf_signedTy hw, hl, hr,
        decide_true, if_true]

/-- The first segment gives the number that it has by itself. -/
theorem emitFirst_eval {s : FieldSegment} {e : Expr} (he : emitFirst s w = some e)
    (hin : SegmentInside w s) (insn : BitVec w) (fns : String → BitVec 64) (val : Value) :
    (eval (wordAs insn) fns val e).bits = BitVec.ofInt 64 (segmentsValue insn.toNat [s]) := by
  rw [segmentsValue_singleton]
  unfold emitFirst at he
  split at he
  case isTrue hsigned =>
    rw [emitSigned_eval hw he hin.2.1, if_pos hsigned]
  case isFalse hsigned =>
    rw [emitUnsigned_eval hw he, if_neg hsigned]
    rfl

theorem emitFirst_typeOf {s : FieldSegment} {e : Expr} (he : emitFirst s w = some e)
    (hin : SegmentInside w s) (val : IntTy) (fns : List String) :
    ∃ ty, typeOf (insnTyOf w) val fns e = some ty := by
  unfold emitFirst at he
  split at he
  case isTrue => exact ⟨_, emitSigned_typeOf hw he hin.2.1 val fns⟩
  case isFalse => exact ⟨_, emitUnsigned_typeOf hw he hin.1 hin.2.1 val fns⟩

/-! ## Further segments -/

/-- What the loop over the further segments makes of the value of the first. -/
def appendSegments (insn : Nat) (v : Int) (segs : List FieldSegment) : Int :=
  segs.foldl (fun v s => v * 2 ^ s.len + bitsAt insn s.pos s.len) v

theorem emitStep_eval {s : FieldSegment} {e : Expr} (he : emitStep s = some e)
    (insn : BitVec w) (fns : String → BitVec 64) (v : Int) :
    eval (wordAs insn) fns ⟨.i64, BitVec.ofInt 64 v⟩ e =
      ⟨.i64, BitVec.ofInt 64 (v * 2 ^ s.len + bitsAt insn.toNat s.pos s.len)⟩ := by
  obtain ⟨bits, hbits, he⟩ := Option.bind_eq_some_iff.mp he
  cases he
  have hlt : bitsAt insn.toNat s.pos s.len < 2 ^ s.len := Nat.mod_lt _ (Nat.two_pow_pos _)
  simp only [eval, emitUnsigned_eval hw hbits, fit_i64, shiftLeft_or 64 s.len _ v hlt]

theorem emitStep_typeOf {s : FieldSegment} {e : Expr} (he : emitStep s = some e)
    (hin : SegmentInside w s) (fns : List String) :
    typeOf (insnTyOf w) .i64 fns e = some .i64 := by
  obtain ⟨bits, hbits, he⟩ := Option.bind_eq_some_iff.mp he
  cases he
  have hlen : s.len < bitsOf .i64 := lt_of_le_of_lt hin.2.2 (by decide)
  simp only [typeOf, emitUnsigned_typeOf hw hbits hin.1 hin.2.1, Option.map_some,
    Option.filter_some, hlen, decide_true, beq_self_eq_true, if_true]

/-- The loop over the further segments. -/
theorem steps_eval {segs : List FieldSegment} {steps : List Expr}
    (h : List.Forall₂ (fun s e => emitStep s = some e) segs steps) (insn : BitVec w)
    (fns : String → BitVec 64) (v : Int) :
    steps.foldl (eval (wordAs insn) fns) ⟨.i64, BitVec.ofInt 64 v⟩ =
      ⟨.i64, BitVec.ofInt 64 (appendSegments insn.toNat v segs)⟩ := by
  induction h generalizing v with
  | nil => rfl
  | cons hstep _ ih =>
    rw [List.foldl_cons, emitStep_eval hw hstep, ih]
    rfl

end

/-- The unsigned concatenation is the loop from the first segment. -/
theorem concatBits_eq (insn n : Nat) (segs : List FieldSegment) :
    ((segs.foldl (fun n s => n * 2 ^ s.len + bitsAt insn s.pos s.len) n : Nat) : Int) =
      appendSegments insn n segs := by
  induction segs generalizing n with
  | nil => rfl
  | cons s segs ih =>
    rw [List.foldl_cons, ih]
    show appendSegments insn _ segs = appendSegments insn _ segs
    congr 1

/-- The sign of a concatenation can be taken before the further segments are appended. -/
theorem bmod_appendSegments (insn n L : Nat) (hL : 1 ≤ L) (segs : List FieldSegment) :
    (appendSegments insn n segs).bmod (2 ^ (L + totalLen segs)) =
      appendSegments insn ((n : Int).bmod (2 ^ L)) segs := by
  induction segs generalizing n L with
  | nil => rfl
  | cons s segs ih =>
    have hlt : bitsAt insn s.pos s.len < 2 ^ s.len := Nat.mod_lt _ (Nat.two_pow_pos _)
    have hlen : L + totalLen (s :: segs) = L + s.len + totalLen segs := by
      simp only [totalLen, List.map_cons, List.sum_cons]
      omega
    have hnext := ih (n * 2 ^ s.len + bitsAt insn s.pos s.len) (L + s.len) (by omega)
    rw [bmod_concat n _ L s.len hL hlt] at hnext
    rw [hlen]
    push_cast at hnext
    exact hnext

theorem segmentsValue_cons (insn : Nat) (s : FieldSegment) (segs : List FieldSegment)
    (hlen : 1 ≤ s.len) :
    segmentsValue insn (s :: segs) = appendSegments insn (segmentsValue insn [s]) segs := by
  have hfirst : (0 : Nat) * 2 ^ s.len + bitsAt insn s.pos s.len = bitsAt insn s.pos s.len := by
    omega
  have hconcat : (concatBits insn (s :: segs) : Int) =
      appendSegments insn (bitsAt insn s.pos s.len : Nat) segs := by
    rw [concatBits, List.foldl_cons, hfirst, concatBits_eq]
  rw [segmentsValue_singleton]
  by_cases hs : s.signed = true
  · have hsign := bmod_appendSegments insn (bitsAt insn s.pos s.len) s.len hlen segs
    simp only [segmentsValue, List.head?_cons, Option.any_some, hs, if_true, hconcat]
    exact hsign
  · simp only [segmentsValue, List.head?_cons, Option.any_some, hs, Bool.false_eq_true, if_false,
      hconcat]

/-! ## Transformations -/

theorem sreg_index (v : Int) : (BitVec.ofInt 64 v &&& 7).toNat = (v % 8).toNat := by
  have hmod : (BitVec.ofInt 64 v &&& 7).toNat = (BitVec.ofInt 64 v).toNat % 2 ^ 3 :=
    Nat.and_two_pow_sub_one_eq_mod _ 3
  rw [hmod, BitVec.toNat_ofInt]
  omega

/-- The emitted table has the register numbers of the specification. -/
theorem sreg_table : ∀ i < 8,
    BitVec.ofNat 64 ([8, 9, 18, 19, 20, 21, 22, 23].getD i 0) =
      BitVec.ofInt 64 ([8, 9, 18, 19, 20, 21, 22, 23].getD i 0) := by
  decide

/-- The emitted transformation of a value of type `i64`. -/
theorem emitResult_eval (insn : Value) (fns : String → BitVec 64) (val : Value) (field : Field)
    (e : Expr) (v : Int) (he : eval insn fns val e = ⟨.i64, BitVec.ofInt 64 v⟩) :
    (eval insn fns val (emitResult field e)).bits = BitVec.ofInt 64 (transform field.func v) := by
  cases hfunc : field.func with
  | none =>
    simp only [emitResult, hfunc, he, transform]
  | some func =>
    simp only [emitResult, hfunc]
    unfold emitFuncTransform
    split
    case h_6 =>
      simp only [eval, he, transform, fit_i64, BitVec.ofInt_add]
      rfl
    case h_7 =>
      simp only [eval, he, transform, sreg_index]
      exact sreg_table _ (by omega)
    case h_8 | h_9 => simp only [he]; rfl
    case h_10 =>
      have hid : transform (some func) v = v := by
        unfold transform
        split <;> simp_all only [Option.some.injEq, imp_false]
      rw [he, hid]
    all_goals simp only [eval, he, transform, fit_i64, ofInt_shiftLeft]

theorem emitResult_typeOf (word val : IntTy) (fns : List String) (field : Field) (e : Expr)
    (he : typeOf word val fns e = some .i64) :
    typeOf word val fns (emitResult field e) = some .i64 := by
  cases hfunc : field.func with
  | none => simp only [emitResult, hfunc, he]
  | some func =>
    simp only [emitResult, hfunc]
    unfold emitFuncTransform
    split <;> simp [typeOf, he, bitsOf, literalFits, isSigned]

/-! ## Extraction functions -/

theorem emitExtractField_name {field : Field} {width : Nat} {fn : ExtractFn}
    (he : emitExtractField field width = some fn) : fn.name = field.name := by
  unfold emitExtractField at he
  split at he
  case h_1 =>
    obtain ⟨first, _, he⟩ := Option.bind_eq_some_iff.mp he
    cases he
    rfl
  case h_2 => cases he
  case h_3 =>
    obtain ⟨first, _, he⟩ := Option.bind_eq_some_iff.mp he
    obtain ⟨steps, _, he⟩ := Option.bind_eq_some_iff.mp he
    cases he
    rfl

section
variable {w : Nat} (hw : w = 16 ∨ w = 32)
include hw

/-- The extraction function of a field whose segments lie in the word returns its value. -/
theorem runExtract_eq {field : Field} {fn : ExtractFn}
    (he : emitExtractField field w = some fn) (hin : ∀ s ∈ field.segments, SegmentInside w s)
    (insn : BitVec w) (fns : String → BitVec 64) :
    runExtract (wordAs insn) fns fn = BitVec.ofInt 64 (fieldValue insn.toNat field) := by
  unfold emitExtractField at he
  split at he
  case h_1 s hsegs =>
    obtain ⟨first, hfirst, he⟩ := Option.bind_eq_some_iff.mp he
    cases he
    rw [hsegs] at hin
    have hval := emitFirst_eval hw hfirst (hin s (List.mem_singleton_self s)) insn fns
      (wordAs insn)
    unfold runExtract fieldValue
    rw [hsegs]
    apply emitResult_eval
    simp only [List.foldl_nil, eval, fit_i64, hval]
  case h_2 => cases he
  case h_3 s0 segs _ hsegs =>
    obtain ⟨first, hfirst, he⟩ := Option.bind_eq_some_iff.mp he
    obtain ⟨steps, hsteps, he⟩ := Option.bind_eq_some_iff.mp he
    cases he
    rw [hsegs] at hin
    have hin0 := hin s0 (List.mem_cons_self ..)
    have hval := emitFirst_eval hw hfirst hin0 insn fns (wordAs insn)
    have hstart : eval (wordAs insn) fns (wordAs insn) (.cast first .i64) =
        ⟨.i64, BitVec.ofInt 64 (segmentsValue insn.toNat [s0])⟩ := by
      simp only [eval, fit_i64, hval]
    unfold runExtract fieldValue
    rw [hsegs, segmentsValue_cons _ _ _ hin0.2.1]
    apply emitResult_eval
    rw [hstart, steps_eval hw (mapM_eq_some_iff.mp hsteps) insn fns]
    rfl

theorem extract_checks {field : Field} {fn : ExtractFn}
    (he : emitExtractField field w = some fn) (hin : ∀ s ∈ field.segments, SegmentInside w s)
    (fns : List String) : ExtractChecks (insnTyOf w) fns fn := by
  unfold emitExtractField at he
  split at he
  case h_1 s hsegs =>
    obtain ⟨first, hfirst, he⟩ := Option.bind_eq_some_iff.mp he
    cases he
    rw [hsegs] at hin
    obtain ⟨ty, hty⟩ := emitFirst_typeOf hw hfirst (hin s (List.mem_singleton_self s))
      (insnTyOf w) fns
    refine ⟨ty, hty, nofun, ?_⟩
    apply emitResult_typeOf
    rfl
  case h_2 => cases he
  case h_3 s0 segs _ hsegs =>
    obtain ⟨first, hfirst, he⟩ := Option.bind_eq_some_iff.mp he
    obtain ⟨steps, hsteps, he⟩ := Option.bind_eq_some_iff.mp he
    cases he
    rw [hsegs] at hin
    obtain ⟨ty, hty⟩ := emitFirst_typeOf hw hfirst (hin s0 (List.mem_cons_self ..)) (insnTyOf w) fns
    refine ⟨.i64, ?_, ?_, ?_⟩
    · simp only [typeOf, hty, Option.map_some]
    · intro e hmem
      obtain ⟨s, hs, hemit⟩ := forall₂_exists_left (mapM_eq_some_iff.mp hsteps) hmem
      exact emitStep_typeOf hw hemit (hin s (List.mem_cons_of_mem _ hs)) fns
    · apply emitResult_typeOf
      rfl

end

/-- A field can be emitted exactly if it has a segment. -/
theorem exists_emitExtractField_iff {w : Nat} {field : Field}
    (hin : ∀ s ∈ field.segments, SegmentInside w s) :
    (∃ fn, emitExtractField field w = some fn) ↔ field.segments ≠ [] := by
  have hunsigned : ∀ s ∈ field.segments, ∃ e, emitUnsigned s.pos s.len = some e := by
    intro s hs
    exact ⟨_, if_pos (by have := (hin s hs).2.2; omega)⟩
  have hfirst : ∀ s ∈ field.segments, ∃ e, emitFirst s w = some e := by
    intro s hs
    unfold emitFirst
    split
    · unfold emitSigned
      rw [if_pos (hin s hs).1]
      dsimp only
      split <;> exact ⟨_, rfl⟩
    · exact hunsigned s hs
  have hstep : ∀ s ∈ field.segments, ∃ e, emitStep s = some e := by
    intro s hs
    obtain ⟨e, he⟩ := hunsigned s hs
    exact ⟨_, by rw [emitStep, he]; rfl⟩
  unfold emitExtractField
  split
  case h_1 s hsegs =>
    rw [hsegs] at hfirst ⊢
    obtain ⟨e, he⟩ := hfirst s (List.mem_singleton_self s)
    rw [he]
    simp
  case h_2 hsegs => simp [hsegs]
  case h_3 s0 segs _ hsegs =>
    rw [hsegs] at hfirst hstep ⊢
    obtain ⟨e, he⟩ := hfirst s0 (List.mem_cons_self ..)
    obtain ⟨es, hes⟩ := exists_mapM_iff.mpr fun s hs => hstep s (List.mem_cons_of_mem s0 hs)
    rw [he, hes]
    simp

end TcgRs.Analysis.FieldExtraction
