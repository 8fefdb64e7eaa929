import TcgRs.Analysis.ArithOps
import TcgRs.Analysis.OptimizerTable

/-!
# Local rewrites and the code of the op they replace

The optimizer replaces an op by a move or a negation.  What that computes is compared with what the
host leaves in the destination when it runs the code of the op that was there.
-/

set_option autoImplicit false

namespace TcgRs.Analysis.LocalRewrites

open TcgRs.Model.Ir TcgRs.Model.X86 TcgRs.Model.Optimize TcgRs.Interface.X86 TcgRs.Interface.Ir
open BranchFolding FoldValues OptimizerTable HostOps ArithOps

/-- The ops that are folded: unary ops, conversions and binary ops. -/
def isLocal : Opcode → Bool
  | .neg | .not => true
  | .extI32I64 | .extUI32I64 | .extrlI64I32 | .extrhI64I32 => true
  | opc => evaluated opc

/-- The part of its inputs that an op reads. -/
def inputType (op : Op) : IrType :=
  match op.opc with
  | .extI32I64 | .extUI32I64 | .extrlI64I32 => .i32
  | .extrhI64I32 => .i64
  | _ => op.opType

/-- The registers hold the operands, and what the optimizer knows of an operand is true, both in
the part that the op reads. -/
structure Operands (p : Pass) (op : Op) (temps : Nat → BitVec 64) (c : Cpu) (iregs : List Reg) :
    Prop where
  count : iregs.length = op.opc.opDef.nbIargs
  held : ∀ k r, iregs[k]? = some r → c.regs r.toU8 &&& typeMask (inputType op) =
    valueOf p.ctx temps (op.args (1 + k)) &&& typeMask (inputType op)
  known : ∀ t ∈ op.iargs, (p.info t).isConst = true → (p.info t).val &&& typeMask (inputType op) =
    valueOf p.ctx temps t &&& typeMask (inputType op)

/-- What an integer op computes. -/
def computed (ctx : Context) (temps : Nat → BitVec 64) (op : Op) : Option (BitVec 64) :=
  evalOp op.opc op.opType op.cargs (op.iargs.map (valueOf ctx temps))

/-- The number of arguments of an opcode. -/
def argCount (opc : Opcode) : Nat := opc.opDef.nbOargs + opc.opDef.nbIargs + opc.opDef.nbCargs

/-- The op is left as it is, or what replaces it has its destination, the number of arguments of
its opcode, and the value that the code of the op leaves. -/
def Sound (p : Pass) (op : Op) (temps : Nat → BitVec 64) (c : Cpu) (d : Reg) (iregs : List Reg) :
    Prop :=
  (foldOp p op).2 = op ∨
    ((foldOp p op).2.nargs = argCount (foldOp p op).2.opc ∧
      (foldOp p op).2.args 0 = op.args 0 ∧
      ∃ v w, computed (foldOp p op).1.ctx temps (foldOp p op).2 = some v ∧
        Leaves op.opc op.opType d iregs c w ∧
        v &&& typeMask op.opType = w &&& typeMask op.opType)

variable {p : Pass} {op : Op} {temps : Nat → BitVec 64} {c : Cpu} {d s : Reg} {iregs : List Reg}
  {ty : IrType}

/-! ## Values -/

theorem setWidth_eq_of_mask {x y : BitVec 64} (h : x &&& typeMask .i32 = y &&& typeMask .i32) :
    x.setWidth 32 = y.setWidth 32 := by
  rw [and_typeMask_i32, and_typeMask_i32] at h
  exact (FieldOps.setWidth_inj (by decide) _ _).mp h

theorem atType_congr {x y : BitVec 64} (h : x &&& typeMask ty = y &&& typeMask ty)
    (f : ∀ n : Nat, BitVec n → BitVec n) : atType ty f x = atType ty f y := by
  by_cases hty : ty = .i32
  · subst hty
    rw [atType, atType, if_pos rfl, if_pos rfl, setWidth_eq_of_mask h]
  · rw [and_typeMask, and_typeMask, atType, atType, if_neg hty, if_neg hty] at h
    rw [h]

theorem atType₂_congr {x y x' y' : BitVec 64} (hx : x &&& typeMask ty = x' &&& typeMask ty)
    (hy : y &&& typeMask ty = y' &&& typeMask ty)
    (f : ∀ n : Nat, BitVec n → BitVec n → BitVec n) : atType₂ ty f x y = atType₂ ty f x' y' := by
  by_cases hty : ty = .i32
  · subst hty
    rw [atType₂, atType₂, if_pos rfl, if_pos rfl, setWidth_eq_of_mask hx, setWidth_eq_of_mask hy]
  · rw [and_typeMask, and_typeMask, atType, atType, if_neg hty, if_neg hty] at hx hy
    rw [hx, hy]

/-- A conversion depends on what it reads. -/
theorem convert_congr {f : BitVec 64 → BitVec 64} (hf : convertOp op.opc = some f)
    {x y : BitVec 64} (h : x &&& typeMask (inputType op) = y &&& typeMask (inputType op)) :
    f x = f y := by
  obtain ⟨opc, ty, life, pref, args, nargs⟩ := op
  cases opc <;> simp only [convertOp, Option.some_inj, reduceCtorEq] at hf <;> subst hf
  case extI32I64 | extUI32I64 | extrlI64I32 =>
    have hlow : x.setWidth 32 = y.setWidth 32 := setWidth_eq_of_mask h
    dsimp only
    rw [hlow]
  case extrhI64I32 =>
    have hxy : x &&& BitVec.allOnes 64 = y &&& BitVec.allOnes 64 := h
    rw [BitVec.and_allOnes, BitVec.and_allOnes] at hxy
    rw [hxy]

theorem simplifiedValue_congr {value value' : Nat → BitVec 64} {r : Simplified}
    (h : ∀ t, r = .mov t ∨ r = .neg t → value t &&& typeMask ty = value' t &&& typeMask ty) :
    simplifiedValue ty value r = simplifiedValue ty value' r := by
  cases r with
  | mov t => exact atType_congr (h t (Or.inl rfl)) (fun _ x => x)
  | const v => rfl
  | neg t => exact atType_congr (h t (Or.inr rfl)) (fun _ x => -x)

theorem leaves_unique {opc : Opcode} {v w : BitVec 64} (h : Leaves opc ty d iregs c v)
    (h' : Leaves opc ty d iregs c w) : v = w := by
  obtain ⟨code, c₁, hcode, hrun, rfl⟩ := h
  obtain ⟨code', c₂, hcode', hrun', rfl⟩ := h'
  rw [hcode, Option.some_inj] at hcode'
  rw [← hcode', hrun, Option.some_inj] at hrun'
  rw [hrun']

/-! ## What the replacement computes -/

theorem computed_mov (ctx : Context) (dst src : Nat) :
    computed ctx temps (rewriteOp op .mov [dst, src]) =
      some (atType op.opType (fun _ x => x) (valueOf ctx temps src)) := rfl

theorem computed_neg (ctx : Context) (dst src : Nat) :
    computed ctx temps (rewriteOp op .neg [dst, src]) =
      some (atType op.opType (fun _ x => -x) (valueOf ctx temps src)) := rfl

/-- A constant that is looked up or made has its value. -/
theorem valueOf_newConst (htable : TableSound p.ctx p.constTable) (ty : IrType) (v : BitVec 64) :
    valueOf (p.newConst ty v).1.ctx temps (p.newConst ty v).2 = v := by
  unfold Pass.newConst
  cases hfind : p.constTable ty v with
  | some t =>
    obtain ⟨hlt, hconst, hval⟩ := htable ty v t hfind
    exact (if_pos ⟨hlt, hconst⟩).trans hval
  | none =>
    have htemp : Function.update p.ctx.temps p.ctx.nbTemps (Temp.newConst ty v) p.ctx.nbTemps =
        Temp.newConst ty v := Function.update_self _ _ _
    show (if p.ctx.nbTemps < p.ctx.nbTemps + 1 ∧ (Function.update p.ctx.temps p.ctx.nbTemps
      (Temp.newConst ty v) p.ctx.nbTemps).isConst = true then (Function.update p.ctx.temps
      p.ctx.nbTemps (Temp.newConst ty v) p.ctx.nbTemps).val else temps p.ctx.nbTemps) = v
    rw [htemp]
    exact if_pos ⟨Nat.lt_succ_self _, rfl⟩

theorem computed_const (htable : TableSound p.ctx p.constTable) (dst : Nat) (val : BitVec 64)
    (ty : IrType) :
    computed (replaceWithConst p op dst val ty).1.ctx temps (replaceWithConst p op dst val ty).2 =
      some (atType op.opType (fun _ x => x) (val &&& typeMask ty)) := by
  show some (atType op.opType (fun _ x => x) (valueOf (p.newConst ty (val &&& typeMask ty)).1.ctx
    temps (p.newConst ty (val &&& typeMask ty)).2)) = _
  rw [valueOf_newConst htable]

theorem computed_simplified (htable : TableSound p.ctx p.constTable) (dst : Nat)
    (r : Simplified) :
    computed (replaceSimplified p op dst op.opType r).1.ctx temps
        (replaceSimplified p op dst op.opType r).2 =
      some (simplifiedValue op.opType (valueOf p.ctx temps) r) := by
  cases r with
  | mov src => rfl
  | neg src => rfl
  | const v =>
    refine (computed_const htable dst v op.opType).trans ?_
    rw [← and_typeMask, BitVec.and_assoc, BitVec.and_self]
    rfl

/-! ## Soundness -/

/-- What is read of a register is what is known of its operand. -/
theorem Operands.known_eq (h : Operands p op temps c iregs) {k : Nat} {r : Reg}
    (hr : iregs[k]? = some r) (hmem : op.args (1 + k) ∈ op.iargs)
    (hconst : (p.info (op.args (1 + k))).isConst = true) :
    (p.info (op.args (1 + k))).val &&& typeMask (inputType op) =
      c.regs r.toU8 &&& typeMask (inputType op) :=
  (h.known _ hmem hconst).trans (h.held k r hr).symm

/-- For an op that is replaced only the two values matter. -/
theorem sound_iff {v w : BitVec 64} (hne : (foldOp p op).2.opc ≠ op.opc)
    (hnargs : (foldOp p op).2.nargs = argCount (foldOp p op).2.opc)
    (hdst : (foldOp p op).2.args 0 = op.args 0)
    (hv : computed (foldOp p op).1.ctx temps (foldOp p op).2 = some v)
    (hw : Leaves op.opc op.opType d iregs c w) :
    Sound p op temps c d iregs ↔ v &&& typeMask op.opType = w &&& typeMask op.opType := by
  constructor
  · rintro (h | ⟨-, -, v', w', hv', hw', heq⟩)
    · exact absurd (congrArg Op.opc h) hne
    · have hvv : v = v' := Option.some_inj.mp (hv.symm.trans hv')
      rw [hvv, leaves_unique hw hw']
      exact heq
  · exact fun heq => Or.inr ⟨hnargs, hdst, v, w, hv, hw, heq⟩

theorem one_input (hlen : iregs.length = 1) : ∃ s, iregs = [s] := List.length_eq_one_iff.mp hlen

theorem two_inputs (hlen : iregs.length = 2) : ∃ a b, iregs = [a, b] := List.length_eq_two.mp hlen

theorem sound_unary (hopc : op.opc = .neg ∨ op.opc = .not)
    (hty : op.opType = .i32 ∨ op.opType = .i64) (htable : TableSound p.ctx p.constTable)
    (hmeets : Meets (opConstraint op.opc) [d] iregs) (hops : Operands p op temps c iregs) :
    Sound p op temps c d iregs := by
  obtain ⟨f, hf⟩ : ∃ f, unaryOp op.opc = some f := by
    rcases hopc with h | h <;> exact ⟨_, by rw [h]; rfl⟩
  have hfold : foldOp p op = foldUnary p op := by
    unfold foldOp
    rcases hopc with h | h <;> rw [h]
  have hinput : inputType op = op.opType := by
    unfold inputType
    rcases hopc with h | h <;> rw [h]
  have hargs : op.iargs = [op.args 1] := by
    unfold Op.iargs
    rcases hopc with h | h <;> rw [h] <;> rfl
  obtain ⟨s, rfl⟩ : ∃ s, iregs = [s] := by
    apply one_input
    rw [hops.count]
    rcases hopc with h | h <;> rw [h] <;> rfl
  unfold Sound
  rw [hfold, foldUnary]
  cases hconst : (p.info (op.args 1)).isConst with
  | false => exact Or.inl (by rw [if_neg Bool.false_ne_true])
  | true =>
    rw [if_pos rfl]
    refine Or.inr ⟨rfl, rfl, _, _, computed_const htable _ _ _, leaves_unary hopc hf hty hmeets, ?_⟩
    have hknown := hops.known_eq (k := 0) rfl (by rw [hargs]; exact List.mem_cons_self) hconst
    rw [hinput] at hknown
    rw [evalUnary_eq hopc hf, atType_and_typeMask, ← and_typeMask, atType_and_typeMask,
      atType_congr hknown f]

theorem foldOp_evaluated (hopc : evaluated op.opc = true) : foldOp p op = foldBinary p op := by
  unfold foldOp
  obtain ⟨opc, ty, life, pref, args, nargs⟩ := op
  cases opc <;> first | rfl | cases hopc

theorem inputType_evaluated (hopc : evaluated op.opc = true) : inputType op = op.opType := by
  unfold inputType
  obtain ⟨opc, ty, life, pref, args, nargs⟩ := op
  cases opc <;> first | rfl | cases hopc

theorem args_evaluated (hopc : evaluated op.opc = true) :
    op.opc.opDef.nbIargs = 2 ∧ op.iargs = [op.args 1, op.args 2] := by
  obtain ⟨opc, ty, life, pref, args, nargs⟩ := op
  cases opc <;> first | exact ⟨rfl, rfl⟩ | cases hopc

theorem sound_binary (hopc : evaluated op.opc = true)
    (hty : op.opType = .i32 ∨ op.opType = .i64) (htable : TableSound p.ctx p.constTable)
    (hmeets : Meets (opConstraint op.opc) [d] iregs) (hops : Operands p op temps c iregs) :
    Sound p op temps c d iregs := by
  obtain ⟨f, hf⟩ : ∃ f, binaryOp op.opc = some f := by
    cases h : op.opc <;> rw [h] at hopc <;> first | exact ⟨_, rfl⟩ | cases hopc
  obtain ⟨hcount, hargs⟩ := args_evaluated hopc
  obtain ⟨a, b, rfl⟩ := two_inputs (hops.count.trans hcount)
  unfold Sound
  rw [foldOp_evaluated hopc, foldBinary]
  cases hres : binaryResult p.info op with
  | none => exact Or.inl rfl
  | some r =>
    -- the values as the facts have them, which are the operands' in what the op reads
    let known t := if (p.info t).isConst = true then (p.info t).val else valueOf p.ctx temps t
    have hknown : ∀ t ∈ op.iargs, known t &&& typeMask op.opType =
        valueOf p.ctx temps t &&& typeMask op.opType := by
      intro t ht
      show (if _ then _ else _) &&& _ = _
      split
      · rename_i hconst
        rw [← inputType_evaluated hopc]
        exact hops.known t ht hconst
      · rfl
    have hmem1 : op.args 1 ∈ op.iargs := by
      rw [hargs]
      exact List.mem_cons_self
    have hmem2 : op.args 2 ∈ op.iargs := by
      rw [hargs]
      exact List.mem_cons_of_mem _ List.mem_cons_self
    obtain ⟨hval, hsrc⟩ := binaryResult_value hopc hf
      (show ∀ t, (p.info t).isConst = true → known t = (p.info t).val from fun t ht => if_pos ht) hres
    have hhost := leaves_evaluated (c := c) hopc hf hty hmeets
    have hheld := hops.held
    rw [inputType_evaluated hopc] at hheld
    have hvalue : simplifiedValue op.opType (valueOf p.ctx temps) r =
        atType₂ op.opType f (c.regs a.toU8) (c.regs b.toU8) := by
      rw [atType₂_congr ((hheld 0 a rfl).trans (hknown _ hmem1).symm)
        ((hheld 1 b rfl).trans (hknown _ hmem2).symm) f, ← hval]
      apply simplifiedValue_congr
      intro t ht
      rcases hsrc t ht with rfl | rfl
      · exact (hknown _ hmem1).symm
      · exact (hknown _ hmem2).symm
    refine Or.inr ⟨?_, ?_, _, _, computed_simplified htable (op.args 0) r, hhost, by rw [hvalue]⟩
    · cases r <;> rfl
    · cases r <;> rfl

theorem foldOp_convert {f : BitVec 64 → BitVec 64} (hf : convertOp op.opc = some f) :
    foldOp p op = foldExt p op ∧ op.opc.opDef.nbIargs = 1 ∧ op.iargs = [op.args 1] ∧
      op.opc ≠ .mov := by
  unfold foldOp
  obtain ⟨opc, ty, life, pref, args, nargs⟩ := op
  cases opc <;> first | exact ⟨rfl, rfl, rfl, nofun⟩ | cases hf

/-- The low half of a word is the word when the upper half is clear. -/
theorem zext_low_eq_iff (x : BitVec 64) : (x.setWidth 32).setWidth 64 = x ↔ x >>> 32 = 0 := by
  have hx := x.isLt
  rw [← BitVec.toNat_inj, ← BitVec.toNat_inj, BitVec.toNat_setWidth, BitVec.toNat_setWidth,
    BitVec.toNat_ushiftRight, Nat.shiftRight_eq_div_pow]
  show x.toNat % 2 ^ 32 % 2 ^ 64 = x.toNat ↔ x.toNat / 2 ^ 32 = 0
  omega

/-- A copy in place against the conversion it stands for. -/
theorem copy_in_place_iff {opc : Opcode} {f : BitVec 64 → BitVec 64} (hf : convertOp opc = some f)
    (hcopy : copiesLow opc = true) (hty : ty = .i32 ∨ ty = .i64) (x : BitVec 64) :
    f x &&& typeMask ty = x &&& typeMask ty ↔ ¬ (ty = .i64 ∧ x >>> 32 ≠ 0) := by
  have hlow : f x = (x.setWidth 32).setWidth 64 := by
    cases opc <;> simp only [copiesLow, Bool.false_eq_true] at hcopy <;> cases hf <;> rfl
  rw [hlow]
  rcases hty with rfl | rfl
  · apply iff_of_true
    · rw [and_typeMask_i32, and_typeMask_i32, setWidth_setWidth_64]
    · rintro ⟨h, -⟩
      cases h
  · show (x.setWidth 32).setWidth 64 &&& BitVec.allOnes 64 = x &&& BitVec.allOnes 64 ↔ _
    rw [BitVec.and_allOnes, BitVec.and_allOnes, zext_low_eq_iff]
    simp only [true_and, ne_eq, not_not]

/-- The replacement of a conversion whose input is known. -/
theorem computed_foldExt {f : BitVec 64 → BitVec 64} (hf : convertOp op.opc = some f)
    (temps : Nat → BitVec 64)
    (htable : TableSound p.ctx p.constTable) (hconst : (p.info (op.args 1)).isConst = true)
    {x : BitVec 64} (hx : (p.info (op.args 1)).val &&& typeMask (inputType op) =
      x &&& typeMask (inputType op)) :
    (foldExt p op).2.opc = .mov ∧ (foldExt p op).2.nargs = 2 ∧
      (foldExt p op).2.args 0 = op.args 0 ∧
      computed (foldExt p op).1.ctx temps (foldExt p op).2 =
        some (f x &&& typeMask op.opType) := by
  unfold foldExt
  dsimp only
  rw [if_pos hconst]
  refine ⟨rfl, rfl, rfl, (computed_const htable _ _ _).trans ?_⟩
  show some (atType op.opType (fun _ x => x) (evalExt op.opc (p.info (op.args 1)).val &&&
    typeMask (convertedType op.opc))) = _
  rw [evalExt_and_typeMask hf, ← and_typeMask, evalExt_eq hf, convert_congr hf hx]

/-- A conversion that is folded agrees with its code unless the code is empty and the upper half of
the register counts. -/
theorem sound_convert_iff {f : BitVec 64 → BitVec 64} (hf : convertOp op.opc = some f)
    (hty : op.opType = .i32 ∨ op.opType = .i64) (htable : TableSound p.ctx p.constTable)
    (hmeets : Meets (opConstraint op.opc) [d] iregs) (hops : Operands p op temps c iregs) :
    Sound p op temps c d iregs ↔ ¬ (copiesLow op.opc = true ∧ op.opType = .i64 ∧
      (p.info (op.args 1)).isConst = true ∧ iregs = [d] ∧ c.regs d.toU8 >>> 32 ≠ 0) := by
  obtain ⟨hfold, hcount, hargs, hmov⟩ := foldOp_convert (p := p) hf
  obtain ⟨s, rfl⟩ := one_input (hops.count.trans hcount)
  by_cases hconst : (p.info (op.args 1)).isConst = true
  · have hknown := hops.known_eq (k := 0) rfl (by rw [hargs]; exact List.mem_cons_self) hconst
    obtain ⟨hopc, hnargs, hdst, hcomputed⟩ :=
      computed_foldExt hf temps htable hconst hknown
    rw [← hfold] at hopc hnargs hdst hcomputed
    have hiff : ∀ w, Leaves op.opc op.opType d [s] c w → (Sound p op temps c d [s] ↔
        f (c.regs s.toU8) &&& typeMask op.opType = w &&& typeMask op.opType) := by
      intro w hw
      rw [sound_iff (hopc ▸ hmov.symm) (by rw [hnargs, hopc]; rfl) hdst hcomputed hw,
        BitVec.and_assoc, BitVec.and_self]
    by_cases hplace : copiesLow op.opc = true ∧ d = s
    · obtain ⟨hcopy, rfl⟩ := hplace
      rw [hiff _ (leaves_in_place hcopy), copy_in_place_iff hf hcopy hty]
      simp only [hcopy, hconst, true_and]
    · have hhost : Leaves op.opc op.opType d [s] c (f (c.regs s.toU8)) :=
        leaves_convert hf hmeets (fun hcopy hd => hplace ⟨hcopy, hd⟩)
      refine iff_of_true ((hiff _ hhost).mpr rfl) fun h => hplace ⟨h.1, ?_⟩
      exact (List.cons.inj h.2.2.2.1).1.symm
  · refine iff_of_true (Or.inl ?_) (fun h => hconst h.2.2.1)
    rw [hfold, foldExt, if_neg hconst]

/-- Every local rewrite computes what the code of the op leaves, but for the zero extension of a
constant whose register is also the destination. -/
theorem local_rewrite_sound_iff (hlocal : isLocal op.opc = true)
    (hty : op.opType = .i32 ∨ op.opType = .i64) (htable : TableSound p.ctx p.constTable)
    (hmeets : Meets (opConstraint op.opc) [d] iregs) (hops : Operands p op temps c iregs) :
    Sound p op temps c d iregs ↔ ¬ (copiesLow op.opc = true ∧ op.opType = .i64 ∧
      (p.info (op.args 1)).isConst = true ∧ iregs = [d] ∧ c.regs d.toU8 >>> 32 ≠ 0) := by
  by_cases hconvert : ∃ f, convertOp op.opc = some f
  · obtain ⟨f, hf⟩ := hconvert
    exact sound_convert_iff hf hty htable hmeets hops
  · have hcopy : ¬ copiesLow op.opc = true := by
      intro h
      apply hconvert
      cases hopc : op.opc <;> rw [hopc] at h <;> first | exact ⟨_, rfl⟩ | cases h
    refine iff_of_true ?_ fun h => hcopy h.1
    by_cases hunary : op.opc = .neg ∨ op.opc = .not
    · exact sound_unary hunary hty htable hmeets hops
    · apply sound_binary _ hty htable hmeets hops
      cases hopc : op.opc <;> rw [hopc] at hlocal hunary hconvert <;>
        first
        | exact hlocal
        | exact absurd ⟨_, rfl⟩ hconvert
        | exact absurd (Or.inl rfl) hunary
        | exact absurd (Or.inr rfl) hunary

/-! ## On fixed inputs -/

/-- Three temps without constants. -/
def threeLocals : Context where
  temps _ := Temp.newEbb .i64
  nbTemps := 3
  nbGlobals := 0
  frameReg := none
  frameStart := 0
  frameEnd := 0
  frameAllocEnd := 0

/-- The pass when it knows the value of temp 0. -/
def knowsFirst (val : BitVec 64) : Pass :=
  ⟨threeLocals, fun _ _ => none, fun t => ⟨decide (t = 0), val, none⟩⟩

theorem tableSound_knowsFirst (val : BitVec 64) :
    TableSound (knowsFirst val).ctx (knowsFirst val).constTable := by
  intro ty v t h
  cases h

/-- `0 - x`, which becomes a negation. -/
def subtractFromZero : Op := Op.withArgs .sub .i32 [2, 0, 1]

theorem local_rewrite_sound_sub :
    Sound (knowsFirst 0) subtractFromZero (fun t => if t = 1 then 2 else 0) FieldOps.numberedCpu
        .rax [.rax, .rdx] ↔
      ¬ (copiesLow subtractFromZero.opc = true ∧ subtractFromZero.opType = .i64 ∧
        ((knowsFirst 0).info (subtractFromZero.args 1)).isConst = true ∧ [Reg.rax, .rdx] = [.rax] ∧
        FieldOps.numberedCpu.regs Reg.rax.toU8 >>> 32 ≠ 0) := by
  apply local_rewrite_sound_iff (by decide) (by decide) (tableSound_knowsFirst 0) (by decide)
  refine ⟨rfl, ?_, ?_⟩
  · intro k r hr
    match k, hr with
    | 0, hr => cases hr; rfl
    | 1, hr => cases hr; rfl
  · intro t ht hconst
    rw [of_decide_eq_true hconst]
    rfl

/-- The zero extension of a constant. -/
def extendFirst : Op := Op.withArgs .extUI32I64 .i64 [1, 0]

/-- The constant −1 in RAX, which is also the destination. -/
theorem extension_in_place_ne_folded :
    ¬ ∀ (p : Pass) (op : Op) (temps : Nat → BitVec 64) (c : Cpu) (d : Reg) (iregs : List Reg),
      isLocal op.opc = true → (op.opType = .i32 ∨ op.opType = .i64) →
      TableSound p.ctx p.constTable → Meets (opConstraint op.opc) [d] iregs →
      Operands p op temps c iregs → Sound p op temps c d iregs := by
  intro h
  have hops : Operands (knowsFirst (BitVec.allOnes 64)) extendFirst (fun _ => BitVec.allOnes 64)
      ⟨fun _ => BitVec.allOnes 64, fun _ => 0, false⟩ [.rax] := by
    refine ⟨rfl, ?_, fun t ht _ => ?_⟩
    · intro k r hr
      match k, hr with
      | 0, hr => cases hr; rfl
    · rw [List.mem_singleton.mp ht]
      rfl
  have hsound := h _ extendFirst _ _ .rax [.rax] (by decide) (by decide) (tableSound_knowsFirst _)
    (by decide) hops
  rcases hsound with heq | ⟨-, -, v, w, hv, hw, heq⟩
  · exact absurd (congrArg Op.opc heq) (by decide)
  · have hv : BitVec.ofNat 64 0xFFFFFFFF = v := Option.some_inj.mp hv
    rw [← hv, leaves_unique hw (leaves_in_place rfl)] at heq
    exact absurd heq (by decide)

end TcgRs.Analysis.LocalRewrites
