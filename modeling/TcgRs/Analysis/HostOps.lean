import TcgRs.Analysis.EmittedInsns
import TcgRs.Model.X86.Constraints

/-!
# What the code of an op does

The processor runs the bytes of an op to their end.  The registers of an op are any that meet its
constraint; a result of 32 bits leaves the upper half of its register clear.
-/

set_option autoImplicit false

namespace TcgRs.Analysis.HostOps

open TcgRs.Model.Ir TcgRs.Model.X86 TcgRs.Interface.X86 EmittedInsns

/-- The registers of an op meet its constraint: every register is in its set, an aliased output
shares the register of its input, and a new output shares that of none. -/
structure Meets (ct : OpConstraint) (oregs iregs : List Reg) : Prop where
  output : ∀ o ∈ oregs.zipIdx, (ct.args o.2).regs.contains o.1 = true
  input : ∀ i ∈ iregs.zipIdx oregs.length, (ct.args i.2).regs.contains i.1 = true
  aliased : ∀ o ∈ oregs.zipIdx, (ct.args o.2).oalias = true →
    iregs[(ct.args o.2).aliasIndex]? = some o.1
  fresh : ∀ o ∈ oregs.zipIdx, (ct.args o.2).newreg = true → o.1 ∉ iregs

instance (ct : OpConstraint) (oregs iregs : List Reg) : Decidable (Meets ct oregs iregs) :=
  decidable_of_iff
    ((∀ o ∈ oregs.zipIdx, (ct.args o.2).regs.contains o.1 = true) ∧
      (∀ i ∈ iregs.zipIdx oregs.length, (ct.args i.2).regs.contains i.1 = true) ∧
      (∀ o ∈ oregs.zipIdx, (ct.args o.2).oalias = true →
        iregs[(ct.args o.2).aliasIndex]? = some o.1) ∧
      ∀ o ∈ oregs.zipIdx, (ct.args o.2).newreg = true → o.1 ∉ iregs)
    ⟨fun h => ⟨h.1, h.2.1, h.2.2.1, h.2.2.2⟩, fun h => ⟨h.1, h.2, h.3, h.4⟩⟩

/-! ## Registers -/

variable {c : Cpu} {w : Nat}

theorem rexWidth_cases (rexw : Bool) : rexWidth rexw = 32 ∨ rexWidth rexw = 64 := by
  cases rexw
  · exact Or.inl rfl
  · exact Or.inr rfl

/-- The operand size of an op. -/
abbrev opSize (ty : IrType) : Nat := rexWidth (decide (ty = .i64))

/-- What a register holds at an operand size. -/
def low (c : Cpu) (w : Nat) (r : Reg) : BitVec w := (c.regs r.toU8).setWidth w

/-- The result of an op in its destination, with the carry it leaves. -/
def result (c : Cpu) (d : Reg) (v : BitVec w) (carry : Bool) : Cpu :=
  { c.setReg d.toU8 (v.setWidth 64) with carry := carry }

@[simp] theorem regs_result (c : Cpu) (d r : Reg) (v : BitVec w) (carry : Bool) :
    (result c d v carry).regs r.toU8 = if r = d then v.setWidth 64 else c.regs r.toU8 := by
  show (c.setReg d.toU8 (v.setWidth 64)).regs r.toU8 = _
  rw [Cpu.regs_setReg]
  simp only [toU8_injective.eq_iff]

@[simp] theorem mem_result (c : Cpu) (d : Reg) (v : BitVec w) (carry : Bool) :
    (result c d v carry).mem = c.mem := rfl

@[simp] theorem carry_result (c : Cpu) (d : Reg) (v : BitVec w) (carry : Bool) :
    (result c d v carry).carry = carry := rfl

/-- The result of an op of at most 64 bits, read back at its size. -/
theorem low_result (hw : w = 32 ∨ w = 64) (c : Cpu) (d : Reg) (v : BitVec w) (carry : Bool) :
    low (result c d v carry) w d = v := by
  unfold low
  rw [regs_result, if_pos rfl, BitVec.setWidth_setWidth_of_le]
  · exact BitVec.setWidth_eq v
  · rcases hw with rfl | rfl <;> decide

/-! ## Single instructions -/

theorem run_emitModrm {opc : BitVec 32} {r rm : Reg} {i : Instr} {c' : Cpu}
    (hfetch : ∀ rest, fetch (emitModrm opc r rm ++ rest) = some (i, rest))
    (hexec : c.exec i = some c') : c.run (emitModrm opc r rm) = some c' :=
  Cpu.run_single (emitModrm_ne_nil opc r rm) hfetch hexec

theorem run_emitModrmExt {opc : BitVec 32} {ext : Byte} {rm : Reg} {i : Instr} {c' : Cpu}
    (hfetch : ∀ rest, fetch (emitModrmExt opc ext rm ++ rest) = some (i, rest))
    (hexec : c.exec i = some c') : c.run (emitModrmExt opc ext rm) = some c' :=
  Cpu.run_single (emitModrmExt_ne_nil opc ext rm) hfetch hexec

theorem run_lzcnt (c : Cpu) (rexw : Bool) (d s : Reg) :
    c.run (emitModrm (opcLzcnt ||| rexwFlag rexw) d s) =
      some (result c d (low c (rexWidth rexw) s).clz (decide (low c (rexWidth rexw) s = 0))) := by
  apply run_emitModrm (fetch_lzcnt rexw d s)
  simp only [Cpu.exec, read_full, Option.bind_eq_bind, Option.bind_some]
  rw [write_full (rexWidth_cases rexw)]
  rfl

theorem run_tzcnt (c : Cpu) (rexw : Bool) (d s : Reg) :
    c.run (emitModrm (opcTzcnt ||| rexwFlag rexw) d s) =
      some (result c d (low c (rexWidth rexw) s).ctz (decide (low c (rexWidth rexw) s = 0))) := by
  apply run_emitModrm (fetch_tzcnt rexw d s)
  simp only [Cpu.exec, read_full, Option.bind_eq_bind, Option.bind_some]
  rw [write_full (rexWidth_cases rexw)]
  rfl

/-! ## Code that is followed by other code -/

/-- Code that runs to its end whatever follows it, with `post` between the states before and
after. -/
def Runs (bytes : List Byte) (post : Cpu → Cpu → Prop) : Prop :=
  ∀ c, ∃ c', post c c' ∧ ∀ rest c'', c'.run rest = some c'' → c.run (bytes ++ rest) = some c''

theorem Runs.run {bytes : List Byte} {post : Cpu → Cpu → Prop} (h : Runs bytes post) (c : Cpu) :
    ∃ c', post c c' ∧ c.run bytes = some c' := by
  obtain ⟨c', hpost, hrun⟩ := h c
  have hend := hrun [] c' (Cpu.run_nil c')
  rw [List.append_nil] at hend
  exact ⟨c', hpost, hend⟩

theorem Runs.nil {post : Cpu → Cpu → Prop} (h : ∀ c, post c c) : Runs [] post :=
  fun c => ⟨c, h c, fun _ _ hrun => hrun⟩

theorem Runs.append {bytes bytes' : List Byte} {post post' : Cpu → Cpu → Prop}
    (h : Runs bytes post) (h' : Runs bytes' post') :
    Runs (bytes ++ bytes') fun c c'' => ∃ c', post c c' ∧ post' c' c'' := by
  intro c
  obtain ⟨c', hpost, hrun⟩ := h c
  obtain ⟨c'', hpost', hrun'⟩ := h' c'
  refine ⟨c'', ⟨c', hpost, hpost'⟩, ?_⟩
  intro rest c₃ hrest
  rw [List.append_assoc]
  exact hrun _ c₃ (hrun' rest c₃ hrest)

theorem Runs.mono {bytes : List Byte} {post post' : Cpu → Cpu → Prop} (h : Runs bytes post)
    (hsub : ∀ c c', post c c' → post' c c') : Runs bytes post' := by
  intro c
  obtain ⟨c', hpost, hrun⟩ := h c
  exact ⟨c', hsub c c' hpost, hrun⟩

/-- One instruction. -/
theorem Runs.single {code : List Byte} {i : Instr} {post : Cpu → Cpu → Prop} (hne : code ≠ [])
    (hfetch : ∀ rest, fetch (code ++ rest) = some (i, rest))
    (hexec : ∀ c, ∃ c', c.exec i = some c' ∧ post c c') : Runs code post := by
  intro c
  obtain ⟨c', hc, hpost⟩ := hexec c
  exact ⟨c', hpost, fun rest c'' hrest => Cpu.run_cons hne (hfetch rest) hc hrest⟩

/-! ## Arithmetic -/

/-- An operation that writes its result over its first operand. -/
theorem exec_alu {op : ArithOp} (hop : op ≠ .cmp) (hw : w = 32 ∨ w = 64) (c : Cpu) (d s : Reg) :
    c.exec (.alu (aluOf op) w (full d) (full s)) =
      some (result c d ((aluOf op).run (low c w d) (low c w s) c.carry).1
        ((aluOf op).run (low c w d) (low c w s) c.carry).2) := by
  have hne : aluOf op ≠ .cmp := by
    intro h
    cases op <;> first | exact hop rfl | cases h
  simp only [Cpu.exec, read_full, Option.bind_eq_bind, Option.bind_some, if_neg hne]
  rw [write_full hw]
  rfl

/-- Arithmetic of two registers. -/
theorem runs_arithRr {op : ArithOp} (hop : op ≠ .cmp) (rexw : Bool) (d s : Reg) :
    Runs (emitArithRr op rexw d s) fun c c' =>
      c' = result c d ((aluOf op).run (low c (rexWidth rexw) d) (low c (rexWidth rexw) s) c.carry).1
        ((aluOf op).run (low c (rexWidth rexw) d) (low c (rexWidth rexw) s) c.carry).2 :=
  .single (emitModrm_ne_nil _ _ _) (fetch_arithRr op rexw d s)
    (fun c => ⟨_, exec_alu hop (rexWidth_cases rexw) c d s, rfl⟩)

theorem fetch_stc (rest : List Byte) : fetch (emitStc ++ rest) = some (.stc, rest) := by
  have hdecode : decode (0xF9 :: rest) = none := by
    unfold decode
    split
    · rename_i b0 b1 b2 tail heq
      cases heq
      rw [if_neg (by decide), if_neg (by decide)]
      rfl
    · rfl
  show fetch (0xF9 :: rest) = _
  unfold fetch
  rw [hdecode]
  rfl

theorem runs_stc : Runs emitStc fun c c' => c' = { c with carry := true } :=
  .single (by decide) fetch_stc (fun _ => ⟨_, rfl, rfl⟩)

end TcgRs.Analysis.HostOps
