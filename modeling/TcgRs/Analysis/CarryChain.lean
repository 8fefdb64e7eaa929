import TcgRs.Analysis.HostOps
import TcgRs.Analysis.TempStates
import TcgRs.Model.X86.Emission

/-!
# Carry chains

A carry goes from one op to the next in the host's flags, across the code that the allocator puts
between them.  That code consists of moves, loads and stores, which leave the flags alone, and of
the loads of constants, of which the load of zero is an XOR and clears the carry.
-/

set_option autoImplicit false

namespace TcgRs.Analysis.CarryChain

open TcgRs.Model TcgRs.Model.Ir TcgRs.Model.X86 TcgRs.Model.RegAlloc TcgRs.Interface.X86
open TcgRs.Library RegBooks RegInputs RegOperands TempStates EmittedInsns HostOps

/-! ## Flags -/

/-- The load of the constant zero. -/
def loadsZero : HostInsn → Bool
  | .movi _ _ val => decide (val = 0)
  | _ => false

theorem carry_writeReg {w : Nat} (c : Cpu) (r : RegOperand) (v : BitVec w) :
    (c.writeReg r v).carry = c.carry := by
  cases r <;> rfl

/-- The carry that an instruction leaves. -/
def Keeps (insn : HostInsn) (c c' : Cpu) : Prop := c'.carry = (c.carry && !loadsZero insn)

theorem runs_mov (rexw : Bool) (dst src : Reg) :
    Runs (emitMovRr rexw dst src) fun c c' => c'.carry = c.carry :=
  .single (emitModrm_ne_nil _ _ _) (fetch_movRr rexw dst src)
    (fun c => ⟨_, rfl, carry_writeReg c _ _⟩)

theorem emitModrmOffset_ne_nil (opc : BitVec 32) (r base : Reg) (offset : BitVec 32) :
    emitModrmOffset opc r base offset ≠ [] := by
  unfold emitModrmOffset emitMemOperand
  split
  · split <;> simp
  · split <;> simp [emitU32]

theorem runs_load (rexw : Bool) (dst base : Reg) (offset : BitVec 32) :
    Runs (emitLoad rexw dst base offset) fun c c' => c'.carry = c.carry :=
  .single (emitModrmOffset_ne_nil _ _ _ _) (fetch_load rexw dst base offset)
    (fun c => ⟨_, rfl, carry_writeReg c _ _⟩)

theorem runs_store (rexw : Bool) (src base : Reg) (offset : BitVec 32) :
    Runs (emitStore rexw src base offset) fun c c' => c'.carry = c.carry :=
  .single (emitModrmOffset_ne_nil _ _ _ _) (fetch_store rexw src base offset)
    (fun _ => ⟨_, rfl, rfl⟩)

/-- The XOR that loads zero clears the carry; the other forms keep it. -/
theorem runs_movi (rexw : Bool) (dst : Reg) (val : BitVec 64) :
    Runs (emitMovRi rexw dst val) fun c c' => c'.carry = (c.carry && !decide (val = 0)) := by
  unfold emitMovRi
  by_cases hzero : val = 0
  · rw [if_pos hzero]
    refine .single (emitModrm_ne_nil _ _ _) (fetch_xorSelf dst) ?_
    intro c
    exact ⟨_, rfl, by simp [hzero, Alu.run]⟩
  · rw [if_neg hzero]
    have hkeep : ∀ c c' : Cpu, c'.carry = c.carry → c'.carry = (c.carry && !decide (val = 0)) := by
      intro c c' h
      rw [h, decide_eq_false hzero, Bool.not_false, Bool.and_true]
    refine Runs.mono ?_ hkeep
    split
    · exact .single (by simp [emitU32]) (fetch_movl_imm dst _) (fun c => ⟨_, rfl, carry_writeReg c _ _⟩)
    · split
      · exact .single (by simp [emitU32]) (fetch_movImm_sext dst _)
          (fun c => ⟨_, rfl, carry_writeReg c _ _⟩)
      · exact .single (by simp [emitU32]) (fetch_movabs dst val)
          (fun c => ⟨_, rfl, carry_writeReg c _ _⟩)

/-- A transfer keeps the carry, unless it loads zero. -/
theorem runs_transfer {zero : Prop} {insn : HostInsn} (h : Transfer zero insn) :
    ∃ bytes, insnBytes insn = some bytes ∧ Runs bytes (Keeps insn) := by
  have hkeep : ∀ c c' : Cpu, loadsZero insn = false → c'.carry = c.carry → Keeps insn c c' := by
    intro c c' hz hc
    rw [Keeps, hz, hc]
    simp
  cases h with
  | @mov ty dst src =>
    refine ⟨_, rfl, ?_⟩
    unfold tcgOutMov
    split
    · exact .nil fun c => hkeep c c rfl rfl
    · exact (runs_mov _ dst src).mono fun c c' => hkeep c c' rfl
  | movi => exact ⟨_, rfl, runs_movi _ _ _⟩
  | ld => exact ⟨_, rfl, (runs_load _ _ _ _).mono fun c c' => hkeep c c' rfl⟩
  | st => exact ⟨_, rfl, (runs_store _ _ _ _).mono fun c c' => hkeep c c' rfl⟩

/-- So does a list of transfers. -/
theorem runs_transfers {zero : Prop} {code : List HostInsn} (h : ∀ insn ∈ code, Transfer zero insn) :
    ∃ bytes, codeBytes code = some bytes ∧
      Runs bytes fun c c' => c'.carry = (c.carry && !code.any loadsZero) := by
  induction code with
  | nil => exact ⟨[], rfl, .nil fun c => by simp⟩
  | cons insn code ih =>
    obtain ⟨bytes, hbytes, hruns⟩ := runs_transfer (h insn List.mem_cons_self)
    obtain ⟨bytes', hbytes', hruns'⟩ := ih fun i hi => h i (List.mem_cons_of_mem insn hi)
    refine ⟨bytes ++ bytes', ?_, (hruns.append hruns').mono ?_⟩
    · show (do return (← insnBytes insn) ++ (← codeBytes code)) = _
      rw [hbytes, hbytes']
      rfl
    · rintro c c'' ⟨c', hc, hc'⟩
      rw [hc', hc, List.any_cons, Bool.not_or, Bool.and_assoc]

/-! ## Zeros that are loaded -/

/-- Only the temp that a register holds leaves its place when the register is emptied. -/
theorem constOf_evictReg {p p' : Pass} {reg : Reg} (hfree : ConstFree p)
    (h : evictReg p reg = some p') (u : Nat) : constOf p' u = constOf p u := by
  have hmoves : Moves (fun _ => False) (fun _ => False) p p' := moves_evictReg h
  cases hu : constOf p u with
  | none => exact hmoves.const_none hu
  | some z =>
    unfold evictReg at h
    split at h
    · injection h with h
      exact h ▸ hu
    · rename_i t hocc
      have hne : u ≠ t := by
        intro heq
        rw [heq, hfree reg t hocc] at hu
        cases hu
      obtain ⟨temp, -, h⟩ := Option.bind_eq_some_iff.mp h
      dsimp only at h
      split at h
      · obtain ⟨p₁, hsync, h⟩ := Option.bind_eq_some_iff.mp h
        injection h with h
        rw [← h]
        show constOf (p₁.modTemp t Temp.toMem) u = _
        rw [constOf_modTemp, if_neg hne, constOf, (tempSync_ctx hsync).1]
        exact hu
      · obtain ⟨⟨ctx, offset⟩, halloc, h⟩ := Option.bind_eq_some_iff.mp h
        obtain ⟨frameReg, -, h⟩ := Option.bind_eq_some_iff.mp h
        injection h with h
        rw [← h]
        have hslot : ctx.temp u = p.ctx.temp u := by
          obtain ⟨temp', -, halloc⟩ := Option.bind_eq_some_iff.mp halloc
          split at halloc
          · injection halloc with halloc
            injection halloc with halloc _
            rw [← halloc]
          · dsimp only at halloc
            split at halloc
            · injection halloc with halloc
              injection halloc with halloc _
              rw [← halloc, temp_modTemp, if_neg hne]
              rfl
            · cases halloc
        show constOf (Pass.modTemp _ t Temp.toMem) u = _
        rw [constOf_modTemp, if_neg hne]
        show (ctx.temp u).bind _ = _
        rw [hslot]
        exact hu

theorem constOf_regAlloc {p p' : Pass} {required forbidden preferred : RegSet} {reg : Reg}
    (hfree : ConstFree p) (h : regAlloc p required forbidden preferred = some (p', reg)) (u : Nat) :
    constOf p' u = constOf p u := by
  cases regAlloc_cases h with
  | inl h => rw [h]
  | inr h => exact constOf_evictReg hfree h u

/-- Loading a temp leaves the other constants where they are. -/
theorem constOf_tempLoadTo {p p' : Pass} {t u : Nat} {required forbidden preferred : RegSet}
    {reg : Reg} (hfree : ConstFree p) (hne : u ≠ t)
    (h : tempLoadTo p t required forbidden preferred = some (p', reg)) :
    constOf p' u = constOf p u := by
  obtain ⟨temp, -, h⟩ := Option.bind_eq_some_iff.mp h
  split at h
  · obtain ⟨cur, -, h⟩ := Option.bind_eq_some_iff.mp h
    split at h
    · injection h with h
      injection h with h _
      rw [h]
    · obtain ⟨⟨p₁, dst⟩, halloc, h⟩ := Option.bind_eq_some_iff.mp h
      injection h with h
      injection h with h _
      rw [← h, constOf_modTemp, if_neg hne]
      exact constOf_regAlloc hfree halloc u
  · obtain ⟨⟨p₁, dst⟩, halloc, h⟩ := Option.bind_eq_some_iff.mp h
    injection h with h
    injection h with h _
    rw [← h, constOf_modTemp, if_neg hne]
    exact constOf_regAlloc hfree halloc u
  · obtain ⟨⟨p₁, dst⟩, halloc, h⟩ := Option.bind_eq_some_iff.mp h
    obtain ⟨p₂, hload, h⟩ := Option.bind_eq_some_iff.mp h
    injection h with h
    injection h with h _
    rw [← h, constOf_modTemp, if_neg hne, constOf, (loadFromMem_ctx hload).1]
    exact constOf_regAlloc hfree halloc u
  · cases h

/-- The code from `p` to `p'` loads a zero. -/
def LoadsZero (p p' : Pass) : Prop :=
  ∃ code, p'.buf = p.buf ++ code ∧ code.any loadsZero = true

theorem LoadsZero.before {p p' p'' : Pass} (h : LoadsZero p p')
    (h' : ∃ code, p''.buf = p'.buf ++ code) : LoadsZero p p'' := by
  obtain ⟨code, hbuf, hzero⟩ := h
  obtain ⟨code', hbuf'⟩ := h'
  exact ⟨code ++ code', by rw [hbuf', hbuf, List.append_assoc], by simp [hzero]⟩

theorem LoadsZero.after {p p' p'' : Pass} (h : ∃ code, p'.buf = p.buf ++ code)
    (h' : LoadsZero p' p'') : LoadsZero p p'' := by
  obtain ⟨code, hbuf⟩ := h
  obtain ⟨code', hbuf', hzero⟩ := h'
  exact ⟨code ++ code', by rw [hbuf', hbuf, List.append_assoc], by simp [hzero]⟩

/-- A temp that is still the constant zero is loaded by the load of zero. -/
theorem loadsZero_tempLoadTo {p p' : Pass} {t : Nat} {required forbidden preferred : RegSet}
    {reg : Reg} (ht : constOf p t = some 0)
    (h : tempLoadTo p t required forbidden preferred = some (p', reg)) : LoadsZero p p' := by
  obtain ⟨temp, htemp, hval, hzero⟩ := constOf_eq_some.mp ht
  simp only [tempLoadTo, htemp, hval, hzero, Option.bind_eq_bind, Option.bind_some] at h
  obtain ⟨⟨p₁, dst⟩, halloc, h⟩ := Option.bind_eq_some_iff.mp h
  injection h with h
  injection h with h _
  have hmoves : Moves (fun _ => False) (fun _ => False) p p₁ := moves_regAlloc halloc
  obtain ⟨code, hcode, -⟩ := hmoves.code
  rw [← h]
  refine LoadsZero.after ⟨code, hcode⟩ ⟨[.movi temp.ty dst 0], rfl, ?_⟩
  simp [loadsZero]

/-- The loads of the first `n` inputs contain the load of a zero exactly if one of these inputs is
still the constant zero. -/
theorem loadsZero_loadInputs {op : Op} {ct : OpConstraint} {p p' : Pass} {ins : Inputs} {n : Nat}
    (hfree : ConstFree p)
    (h : (List.range n).foldlM (loadInput op ct) (p, Inputs.new) = some (p', ins))
    (hzero : ∃ i < n, constOf p (inputOf op i) = some 0) : LoadsZero p p' := by
  have hinv : (∃ code, p'.buf = p.buf ++ code) ∧ ConstFree p' ∧
      (∀ u, (∀ i < n, inputOf op i ≠ u) → constOf p' u = constOf p u) ∧
      ((∃ i < n, constOf p (inputOf op i) = some 0) → LoadsZero p p') := by
    refine foldlM_range (fun k s => (∃ code, s.1.buf = p.buf ++ code) ∧ ConstFree s.1 ∧
      (∀ u, (∀ i < k, inputOf op i ≠ u) → constOf s.1 u = constOf p u) ∧
      ((∃ i < k, constOf p (inputOf op i) = some 0) → LoadsZero p s.1)) ?_ ?_ h
    · refine ⟨⟨[], (List.append_nil _).symm⟩, hfree, fun _ _ => rfl, ?_⟩
      rintro ⟨i, hi, -⟩
      cases hi
    · rintro k hk ⟨q, ins⟩ s' ⟨hcode, hqfree, hother, hz⟩ hstep
      obtain ⟨temp, -, hstep⟩ := Option.bind_eq_some_iff.mp hstep
      obtain ⟨⟨q', reg⟩, hload, hstep⟩ := Option.bind_eq_some_iff.mp hstep
      obtain ⟨loaded, -, hstep⟩ := Option.bind_eq_some_iff.mp hstep
      injection hstep with hstep
      have hmoves : Moves (fun _ => True) (fun _ => False) q q' := (moves_tempLoadTo trivial hload).1
      obtain ⟨code', hcode', -⟩ := hmoves.code
      rw [← hstep]
      refine ⟨?_, hmoves.free hqfree, ?_, ?_⟩
      · obtain ⟨code, hcode⟩ := hcode
        exact ⟨code ++ code', by rw [hcode', hcode, List.append_assoc]⟩
      · intro u hu
        rw [constOf_tempLoadTo hqfree (Ne.symm (hu k (Nat.lt_succ_self k))) hload]
        exact hother u fun i hi => hu i (Nat.lt_succ_of_lt hi)
      · rintro ⟨i, hi, hconst⟩
        by_cases hearlier : ∃ j < k, constOf p (inputOf op j) = some 0
        · exact (hz hearlier).before ⟨code', hcode'⟩
        · have hik : i = k := by
            cases Nat.lt_succ_iff_lt_or_eq.mp hi with
            | inl hlt => exact absurd ⟨i, hlt, hconst⟩ hearlier
            | inr heq => exact heq
          subst hik
          -- No earlier input is the same temp, so it has not been loaded yet.
          have hq : constOf q (inputOf op i) = some 0 := by
            rw [hother _ ?_, hconst]
            intro j hj heq
            exact hearlier ⟨j, hj, heq ▸ hconst⟩
          exact LoadsZero.after hcode (loadsZero_tempLoadTo hq hload)
  exact hinv.2.2.2 hzero

/-! ## The ops -/

/-- The ops that leave a carry or a borrow. -/
def leavesCarry (opc : Opcode) : Bool :=
  opc ∈ [.addCO, .addCio, .addC1O, .subBO, .subBio, .subB1O]

/-- The ops that take one. -/
def takesCarry (opc : Opcode) : Bool := opc ∈ [.addCI, .addCio, .subBI, .subBio]

/-- The carry or borrow that an op leaves. -/
def carryOf {w : Nat} (opc : Opcode) (x y : BitVec w) (carry : Bool) : Bool :=
  match opc with
  | .addCO => decide (2 ^ w ≤ x.toNat + y.toNat)
  | .addCio => decide (2 ^ w ≤ x.toNat + y.toNat + carry.toNat)
  | .addC1O => decide (2 ^ w ≤ x.toNat + y.toNat + 1)
  | .subBO => decide (x.toNat < y.toNat)
  | .subBio => decide (x.toNat < y.toNat + carry.toNat)
  | .subB1O => decide (x.toNat < y.toNat + 1)
  | _ => carry

/-- The value of an op that takes a carry or a borrow. -/
def valueOf {w : Nat} (opc : Opcode) (x y : BitVec w) (carry : Bool) : BitVec w :=
  match opc with
  | .addCI | .addCio => x + y + if carry then 1 else 0
  | .subBI | .subBio => x - y - if carry then 1 else 0
  | _ => x

theorem runs_leavesCarry {opc : Opcode} (h : leavesCarry opc = true) (ty : IrType) (d a b : Reg)
    (cargs : List Nat) :
    ∃ bytes, tcgOutOp opc ty [d] [a, b] cargs = some bytes ∧ Runs bytes fun c c' =>
      c'.carry = carryOf opc (low c (opSize ty) d) (low c (opSize ty) b) c.carry := by
  have harith : ∀ op, op ≠ ArithOp.cmp → Runs (emitArithRr op (decide (ty = .i64)) d b) fun c c' =>
      c'.carry =
        ((aluOf op).run (low c (opSize ty) d) (low c (opSize ty) b) c.carry).2 := by
    intro op hop
    refine (runs_arithRr hop _ d b).mono ?_
    rintro c c' rfl
    rfl
  have hstc : ∀ op, op ≠ ArithOp.cmp →
      Runs (emitStc ++ emitArithRr op (decide (ty = .i64)) d b) fun c c' =>
        c'.carry = ((aluOf op).run (low c (opSize ty) d) (low c (opSize ty) b) true).2 := by
    intro op hop
    refine (runs_stc.append (harith op hop)).mono ?_
    rintro c c'' ⟨c', rfl, hc⟩
    exact hc
  simp only [leavesCarry, List.mem_cons, List.not_mem_nil, or_false, decide_eq_true_eq] at h
  rcases h with rfl | rfl | rfl | rfl | rfl | rfl
  · exact ⟨_, rfl, harith .add (by decide)⟩
  · exact ⟨_, rfl, harith .adc (by decide)⟩
  · exact ⟨_, rfl, hstc .adc (by decide)⟩
  · exact ⟨_, rfl, harith .sub (by decide)⟩
  · exact ⟨_, rfl, harith .sbb (by decide)⟩
  · exact ⟨_, rfl, hstc .sbb (by decide)⟩

theorem runs_takesCarry {opc : Opcode} (h : takesCarry opc = true) (ty : IrType) (d a b : Reg)
    (cargs : List Nat) :
    ∃ bytes, tcgOutOp opc ty [d] [a, b] cargs = some bytes ∧ Runs bytes fun c c' =>
      low c' (opSize ty) d =
        valueOf opc (low c (opSize ty) d) (low c (opSize ty) b) c.carry := by
  have harith : ∀ op, op ≠ ArithOp.cmp → Runs (emitArithRr op (decide (ty = .i64)) d b) fun c c' =>
      low c' (opSize ty) d =
        ((aluOf op).run (low c (opSize ty) d) (low c (opSize ty) b) c.carry).1 := by
    intro op hop
    refine (runs_arithRr hop _ d b).mono ?_
    rintro c c' rfl
    exact low_result (rexWidth_cases _) c d _ _
  simp only [takesCarry, List.mem_cons, List.not_mem_nil, or_false, decide_eq_true_eq] at h
  rcases h with rfl | rfl | rfl | rfl
  · exact ⟨_, rfl, harith .adc (by decide)⟩
  · exact ⟨_, rfl, harith .adc (by decide)⟩
  · exact ⟨_, rfl, harith .sbb (by decide)⟩
  · exact ⟨_, rfl, harith .sbb (by decide)⟩

/-! ## Pairs of ops -/

/-- The call that emits an op with one output and two inputs. -/
def binaryInsn (op : Op) (d a b : Reg) : HostInsn := .op op.opc op.opType [d] [a, b] op.cargs

/-- An op of a carry chain loads its inputs, is emitted, and stores what has to be stored. -/
theorem step_parts {p p' : Pass} {op : Op}
    (hop : leavesCarry op.opc = true ∨ takesCarry op.opc = true) (hfree : ConstFree p)
    (h : stepOp p op = some p') :
    op.opc.opDef.nbIargs = 2 ∧ ∃ (head tail : List HostInsn) (d a b : Reg),
      p'.buf = p.buf ++ head ++ binaryInsn op d a b :: tail ∧
      (∀ insn ∈ head, Transfer (∃ t, t ∈ op.iargs ∧ constOf p t = some 0) insn) ∧
      ((∃ i < 2, constOf p (inputOf op i) = some 0) → head.any loadsZero = true) ∧
      ∀ insn ∈ tail, Transfer False insn := by
  have hgeneric : op.opc.opDef.nbIargs = 2 ∧ op.opc.opDef.nbOargs = 1 ∧
      stepOp p op = (do
        let p ← regallocOp p op (opConstraint op.opc)
        if op.opc.opDef.flags.contains .bbEnd then syncGlobals p else return p) := by
    obtain ⟨opc, ty, life, pref, args, nargs⟩ := op
    simp only [leavesCarry, takesCarry, List.mem_cons, List.not_mem_nil, or_false,
      decide_eq_true_eq] at hop
    rcases hop with (rfl | rfl | rfl | rfl | rfl | rfl) | (rfl | rfl | rfl | rfl) <;>
      exact ⟨rfl, rfl, rfl⟩
  obtain ⟨hi, ho, hstep⟩ := hgeneric
  rw [hstep] at h
  obtain ⟨p₁, h₁, h⟩ := Option.bind_eq_some_iff.mp h
  obtain ⟨q₁, q₂, ins, oregs, iregs, hload, holen, hilen, hout, -, hrest⟩ :=
    regallocOp_parts (fits_of_regallocOp h₁) h₁
  have hin : Moves (fun t => t ∈ op.iargs) (fun _ => False) p q₁ :=
    (moves_loadInputs (Nat.le_refl _) hload).1
  have hsync : Moves (fun _ => False) (EndsWith op) p₁ p' := by
    split at h
    · exact moves_syncGlobals h
    · injection h with h
      exact h ▸ .refl p₁
  obtain ⟨loads, hloads, htransfer⟩ := hin.code
  obtain ⟨outs, houts, houtTransfer⟩ := hout.code
  obtain ⟨tail, htail, htailTransfer⟩ := (hrest.trans hsync).code
  rw [ho] at holen
  rw [hi] at hilen
  obtain ⟨d, rfl⟩ := List.length_eq_one_iff.mp holen
  obtain ⟨a, b, rfl⟩ := List.length_eq_two.mp hilen
  refine ⟨hi, loads ++ outs, tail, d, a, b, ?_, ?_, ?_, ?_⟩
  · rw [htail]
    show (q₂.buf ++ [binaryInsn op d a b]) ++ tail = _
    rw [houts, hloads]
    simp only [List.append_assoc, List.singleton_append]
  · intro insn hinsn
    cases List.mem_append.mp hinsn with
    | inl hinsn => exact htransfer insn hinsn
    | inr hinsn => exact (houtTransfer insn hinsn).mono fun ⟨_, hf, _⟩ => hf.elim
  · rintro ⟨z, hz, hconst⟩
    obtain ⟨code, hcode, hzero⟩ := loadsZero_loadInputs hfree hload ⟨z, by rw [hi]; exact hz, hconst⟩
    rw [hloads, List.append_cancel_left_eq] at hcode
    rw [List.any_append, hcode, hzero, Bool.true_or]
  · intro insn hinsn
    exact (htailTransfer insn hinsn).mono fun ⟨_, hf, _⟩ => hf.elim

/-- A transfer that may not load a zero loads none. -/
theorem any_loadsZero {zero : Prop} {code : List HostInsn} (h : ∀ insn ∈ code, Transfer zero insn)
    (hany : code.any loadsZero = true) : zero := by
  obtain ⟨insn, hmem, hz⟩ := List.any_eq_true.mp hany
  cases h insn hmem with
  | mov => cases hz
  | movi hzero => exact hzero (of_decide_eq_true hz)
  | ld => cases hz
  | st => cases hz

/-- Between the two ops of a pair there are transfers, and they load a zero exactly if an input of
the second op is still the constant zero. -/
theorem pair_code {p p₁ p₂ : Pass} {op₁ op₂ : Op} (hfree : ConstFree p)
    (h₁ : leavesCarry op₁.opc = true) (h₂ : takesCarry op₂.opc = true)
    (hs₁ : stepOp p op₁ = some p₁) (hs₂ : stepOp p₁ op₂ = some p₂) :
    ∃ (head mid tail : List HostInsn) (d₁ a₁ b₁ d₂ a₂ b₂ : Reg),
      p₂.buf = p.buf ++ head ++ binaryInsn op₁ d₁ a₁ b₁ :: mid ++ binaryInsn op₂ d₂ a₂ b₂ :: tail ∧
      (∀ insn ∈ mid, Transfer True insn) ∧
      (mid.any loadsZero = true ↔ ∃ i < 2, constOf p₁ (inputOf op₂ i) = some 0) := by
  have hfree₁ : ConstFree p₁ := (ended_stepOp hs₁).ends.free hfree
  obtain ⟨-, head, tail₁, d₁, a₁, b₁, hbuf₁, -, -, htail₁⟩ := step_parts (Or.inl h₁) hfree hs₁
  obtain ⟨hi, head₂, tail, d₂, a₂, b₂, hbuf₂, hhead₂, hzero, -⟩ := step_parts (Or.inr h₂) hfree₁ hs₂
  refine ⟨head, tail₁ ++ head₂, tail, d₁, a₁, b₁, d₂, a₂, b₂, ?_, ?_, ?_⟩
  · rw [hbuf₂, hbuf₁]
    simp only [List.append_assoc, List.cons_append]
  · intro insn hinsn
    cases List.mem_append.mp hinsn with
    | inl hinsn => exact (htail₁ insn hinsn).mono fun _ => trivial
    | inr hinsn => exact (hhead₂ insn hinsn).mono fun _ => trivial
  · constructor
    · intro hany
      rw [List.any_append, Bool.or_eq_true] at hany
      cases hany with
      | inl hany => exact (any_loadsZero htail₁ hany).elim
      | inr hany =>
        obtain ⟨t, ht, hconst⟩ := any_loadsZero hhead₂ hany
        obtain ⟨i, hlt, rfl⟩ := List.mem_map.mp ht
        rw [hi, List.mem_range] at hlt
        exact ⟨i, hlt, hconst⟩
    · intro h
      rw [List.any_append, hzero h, Bool.or_true]

/-- The code of a pair of ops, from `p` to `p₂`, run from any state: the carry that the first op
leaves is the one that the second takes exactly if there is none or `quiet` holds. -/
def CarrySurvivesIff (quiet : Prop) (p p₂ : Pass) (op₁ op₂ : Op) : Prop :=
  ∃ (head mid tail : List HostInsn) (d₁ a₁ b₁ d₂ a₂ b₂ : Reg) (bytes₁ bytes bytes₂ : List Byte),
    p₂.buf = p.buf ++ head ++ binaryInsn op₁ d₁ a₁ b₁ :: mid ++ binaryInsn op₂ d₂ a₂ b₂ :: tail ∧
    insnBytes (binaryInsn op₁ d₁ a₁ b₁) = some bytes₁ ∧ codeBytes mid = some bytes ∧
    insnBytes (binaryInsn op₂ d₂ a₂ b₂) = some bytes₂ ∧
    ∀ c, ∃ c₁ c₂ c₃, c.run bytes₁ = some c₁ ∧ c₁.run bytes = some c₂ ∧ c₂.run bytes₂ = some c₃ ∧
      c₁.carry =
        carryOf op₁.opc (low c (opSize op₁.opType) d₁) (low c (opSize op₁.opType) b₁) c.carry ∧
      low c₃ (opSize op₂.opType) d₂ = valueOf op₂.opc (low c₂ (opSize op₂.opType) d₂)
        (low c₂ (opSize op₂.opType) b₂) c₂.carry ∧
      (c₂.carry = c₁.carry ↔ c₁.carry = false ∨ quiet)

/-- **A carry survives** from one op to the next exactly when there is none, or no input of the
second op is the constant zero and not in a register yet. -/
theorem carry_survives_iff {ctx : Context} {ops : List Op} {p p₁ p₂ : Pass} {op₁ op₂ : Op}
    (hc : RegBookkeeping.Starting ctx) (hrun : regallocAndCodegen ctx ops = some p)
    (h₁ : leavesCarry op₁.opc = true) (h₂ : takesCarry op₂.opc = true)
    (hs₁ : stepOp p op₁ = some p₁) (hs₂ : stepOp p₁ op₂ = some p₂) :
    CarrySurvivesIff (∀ i < 2, constOf p₁ (inputOf op₂ i) ≠ some 0) p p₂ op₁ op₂ := by
  have hfree : ConstFree p := constFree_run (constFree_initPass hc) hrun
  obtain ⟨head, mid, tail, d₁, a₁, b₁, d₂, a₂, b₂, hbuf, hmid, hzero⟩ :=
    pair_code hfree h₁ h₂ hs₁ hs₂
  obtain ⟨bytes₁, hbytes₁, hruns₁⟩ := runs_leavesCarry h₁ op₁.opType d₁ a₁ b₁ op₁.cargs
  obtain ⟨bytes, hbytes, hruns⟩ := runs_transfers hmid
  obtain ⟨bytes₂, hbytes₂, hruns₂⟩ := runs_takesCarry h₂ op₂.opType d₂ a₂ b₂ op₂.cargs
  refine ⟨head, mid, tail, d₁, a₁, b₁, d₂, a₂, b₂, bytes₁, bytes, bytes₂, hbuf, hbytes₁, hbytes,
    hbytes₂, ?_⟩
  intro c
  obtain ⟨c₁, hc₁, hrun₁⟩ := hruns₁.run c
  obtain ⟨c₂, hc₂, hrun₂⟩ := hruns.run c₁
  obtain ⟨c₃, hc₃, hrun₃⟩ := hruns₂.run c₂
  refine ⟨c₁, c₂, c₃, hrun₁, hrun₂, hrun₃, hc₁, hc₃, ?_⟩
  have hnone : (∀ i < 2, constOf p₁ (inputOf op₂ i) ≠ some 0) ↔ mid.any loadsZero = false := by
    rw [← Bool.not_eq_true, hzero]
    push Not
    rfl
  rw [hnone, hc₂]
  cases c₁.carry <;> cases mid.any loadsZero <;> simp

/-- `env` in RBP, the constants 7 and 0, and two locals. -/
def borrowContext : Context where
  temps t := [Temp.newFixed .i64 .rbp, Temp.newConst .i64 7, Temp.newConst .i64 0,
    Temp.newEbb .i64, Temp.newEbb .i64].getD t (Temp.newEbb .i64)
  nbTemps := 5
  nbGlobals := 1
  frameReg := some .rsp
  frameStart := 128
  frameEnd := 1152
  frameAllocEnd := 128

theorem starting_borrowContext : RegBookkeeping.Starting borrowContext :=
  .of_env (by decide) (by decide) ⟨rfl, .rbp, rfl, rfl⟩ (by decide) (by decide)

/-- `t = 7 - 7 - 1`, which borrows. -/
def borrowOp : Op := Op.withArgs .subB1O .i64 [3, 1, 1]

/-- `u = 7 - 0 - borrow`. -/
def zeroOp : Op := Op.withArgs .subBI .i64 [4, 1, 2]

/-- `u = 7 - 7 - borrow`, with its inputs in registers. -/
def sevenOp : Op := Op.withArgs .subBI .i64 [4, 1, 1]

theorem carry_survives_sevenOp : ∃ p₁ p₂,
    stepOp (initPass borrowContext) borrowOp = some p₁ ∧ stepOp p₁ sevenOp = some p₂ ∧
      CarrySurvivesIff (∀ i < 2, constOf p₁ (inputOf sevenOp i) ≠ some 0) (initPass borrowContext) p₂
        borrowOp sevenOp := by
  have h : ((stepOp (initPass borrowContext) borrowOp).any fun p₁ =>
      (stepOp p₁ sevenOp).isSome) = true := by decide
  rw [Option.any_eq_true] at h
  obtain ⟨p₁, h₁, h⟩ := h
  obtain ⟨p₂, h₂⟩ := Option.isSome_iff_exists.mp h
  have hrun : regallocAndCodegen borrowContext [] = some (initPass borrowContext) := rfl
  exact ⟨p₁, p₂, h₁, h₂, carry_survives_iff starting_borrowContext hrun rfl rfl h₁ h₂⟩

theorem runs_zeroOp : ∃ p₁ p₂, stepOp (initPass borrowContext) borrowOp = some p₁ ∧
    stepOp p₁ zeroOp = some p₂ ∧ constOf p₁ 2 = some 0 := by
  have h : ((stepOp (initPass borrowContext) borrowOp).any fun p₁ =>
      (stepOp p₁ zeroOp).isSome && decide (constOf p₁ 2 = some 0)) = true := by decide
  rw [Option.any_eq_true] at h
  obtain ⟨p₁, h₁, h⟩ := h
  rw [Bool.and_eq_true, decide_eq_true_eq] at h
  obtain ⟨p₂, h₂⟩ := Option.isSome_iff_exists.mp h.1
  exact ⟨p₁, p₂, h₁, h₂, h.2⟩

/-- The zero that is loaded for the second subtraction clears the borrow of the first. -/
theorem zero_operand_clears_borrow :
    ¬∀ (ctx : Context) (ops : List Op) (p p₁ p₂ : Pass) (op₁ op₂ : Op),
      RegBookkeeping.Starting ctx → regallocAndCodegen ctx ops = some p →
      leavesCarry op₁.opc = true → takesCarry op₂.opc = true → stepOp p op₁ = some p₁ →
      stepOp p₁ op₂ = some p₂ →
      ∀ (head mid tail : List HostInsn) (d₁ a₁ b₁ d₂ a₂ b₂ : Reg) (bytes₁ bytes : List Byte),
        p₂.buf = p.buf ++ head ++ binaryInsn op₁ d₁ a₁ b₁ :: mid ++ binaryInsn op₂ d₂ a₂ b₂ :: tail →
        insnBytes (binaryInsn op₁ d₁ a₁ b₁) = some bytes₁ → codeBytes mid = some bytes →
        ∀ c c₁ c₂ : Cpu, c.run bytes₁ = some c₁ → c₁.run bytes = some c₂ → c₂.carry = c₁.carry := by
  intro hall
  obtain ⟨p₁, p₂, hs₁, hs₂, hconst⟩ := runs_zeroOp
  have hrun : regallocAndCodegen borrowContext [] = some (initPass borrowContext) := rfl
  obtain ⟨head, mid, tail, d₁, a₁, b₁, d₂, a₂, b₂, hbuf, hmid, hzero⟩ :=
    pair_code (constFree_initPass starting_borrowContext) rfl rfl hs₁ hs₂
  obtain ⟨bytes₁, hbytes₁, hruns₁⟩ := runs_leavesCarry (show leavesCarry .subB1O = true from rfl) .i64 d₁ a₁ b₁ []
  obtain ⟨bytes, hbytes, hruns⟩ := runs_transfers hmid
  -- With all registers equal, taking one off borrows.
  obtain ⟨c₁, hc₁, hrun₁⟩ := hruns₁.run ⟨fun _ => 0, fun _ => 0, false⟩
  obtain ⟨c₂, hc₂, hrun₂⟩ := hruns.run c₁
  have heq := hall borrowContext [] _ p₁ p₂ borrowOp zeroOp starting_borrowContext hrun rfl rfl hs₁
    hs₂ head mid tail d₁ a₁ b₁ d₂ a₂ b₂ bytes₁ bytes hbuf hbytes₁ hbytes _ c₁ c₂ hrun₁ hrun₂
  have hborrow : c₁.carry = true := hc₁
  rw [hc₂, hborrow, hzero.mpr ⟨1, by decide, hconst⟩] at heq
  cases heq

end TcgRs.Analysis.CarryChain
