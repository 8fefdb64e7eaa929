import TcgRs.Analysis.GeneratedCode

/-!
# Where generated code leads

Control in an op list: straight code leads behind itself, a branch leads to the label that it names.
A label that a generator has made new is set nowhere else.
-/

set_option autoImplicit false

namespace TcgRs.Analysis.GeneratedControl

open TcgRs.Model TcgRs.Model.Ir TcgRs.Interface.Ir GeneratedCode

variable {σ : Type} {E : Effects σ} {C : Context} {ops : List Op}

/-! ## Positions -/

section
variable {pc pc₁ pc₂ : Nat} {s s₁ s₂ : State σ}

theorem reaches_refl (pc : Nat) (s : State σ) : Reaches E C ops pc s pc s :=
  ⟨0, fun fuel => by rw [Nat.zero_add]⟩

theorem reaches_trans (h : Reaches E C ops pc s pc₁ s₁) (h' : Reaches E C ops pc₁ s₁ pc₂ s₂) :
    Reaches E C ops pc s pc₂ s₂ := by
  obtain ⟨steps, h⟩ := h
  obtain ⟨steps', h'⟩ := h'
  refine ⟨steps + steps', fun fuel => ?_⟩
  rw [Nat.add_assoc, h, h']

theorem exits_of_reaches {exit : Exit} (h : Reaches E C ops pc s pc₁ s₁)
    (h' : Exits E C ops pc₁ s₁ exit s₂) : Exits E C ops pc s exit s₂ := by
  obtain ⟨steps, h⟩ := h
  obtain ⟨steps', h'⟩ := h'
  refine ⟨steps + steps', fun fuel => ?_⟩
  rw [Nat.add_assoc, h, h']

/-- One op that leads to a position of the list. -/
theorem reaches_step {op : Op} (hop : ops[pc]? = some op)
    (hnext : nextPc C ops pc op s = some (.inl pc₁)) :
    Reaches E C ops pc s pc₁ (execOp E C op s) := by
  refine ⟨1, fun fuel => ?_⟩
  rw [Nat.add_comm]
  show (ops[pc]?).bind _ = _
  rw [hop]
  show (nextPc C ops pc op s).bind _ = _
  rw [hnext]
  rfl

/-- One op that leads out of it. -/
theorem exits_step {op : Op} {exit : Exit} (hop : ops[pc]? = some op)
    (hnext : nextPc C ops pc op s = some (.inr exit)) :
    Exits E C ops pc s exit (execOp E C op s) := by
  refine ⟨1, fun fuel => ?_⟩
  rw [Nat.add_comm]
  show (ops[pc]?).bind _ = _
  rw [hop]
  show (nextPc C ops pc op s).bind _ = _
  rw [hnext]
  rfl

/-- An exit is found with any fuel from some on, so there is one. -/
theorem exits_unique {exit exit' : Exit} (h : Exits E C ops pc s exit s₁)
    (h' : Exits E C ops pc s exit' s₂) : exit = exit' ∧ s₁ = s₂ := by
  obtain ⟨steps, h⟩ := h
  obtain ⟨steps', h'⟩ := h'
  have hrun := (h steps').symm.trans (Nat.add_comm steps steps' ▸ h' steps)
  injection hrun with hrun
  exact Prod.mk.inj hrun

end

theorem getElem?_append_add {front code back : List Op} {i : Nat} {op : Op}
    (h : code[i]? = some op) : (front ++ (code ++ back))[front.length + i]? = some op := by
  obtain ⟨hlt, -⟩ := List.getElem?_eq_some_iff.mp h
  rw [List.getElem?_append_right (Nat.le_add_right _ _), Nat.add_sub_cancel_left,
    List.getElem?_append_left hlt, h]

/-- Code that reaches its end reaches one state: a block that is left right after it ends there. -/
theorem reaches_unique {code : List Op} {pc : Nat} {s s₁ s₂ : State σ}
    (h₁ : ∀ back, Reaches E C (code ++ back) pc s code.length s₁)
    (h₂ : ∀ back, Reaches E C (code ++ back) pc s code.length s₂) : s₁ = s₂ := by
  let stop := Op.withArgs .exitTb .i64 [0]
  have hget : (code ++ [stop])[code.length]? = some stop := by
    rw [List.getElem?_append_right le_rfl, Nat.sub_self]
    rfl
  have hexit : ∀ s' : State σ, Exits E C (code ++ [stop]) code.length s' (.exitTb 0) s' :=
    fun s' => exits_step hget rfl
  exact (exits_unique (exits_of_reaches (h₁ [stop]) (hexit s₁))
    (exits_of_reaches (h₂ [stop]) (hexit s₂))).2

theorem reaches_of_interprets {code : List Op} {s s' : State σ} (h : Interprets E C code s s')
    (front back : List Op) :
    Reaches E C (front ++ (code ++ back)) front.length s (front.length + code.length) s' := by
  refine ⟨code.length, fun fuel => ?_⟩
  have hrun := h front back fuel
  rw [List.append_assoc] at hrun
  exact hrun

/-! ## Labels -/

theorem labelsBelow_append {n : Nat} {ops ops' : List Op} (h : LabelsBelow n ops)
    (h' : LabelsBelow n ops') : LabelsBelow n (ops ++ ops') := by
  intro op hop
  cases List.mem_append.mp hop with
  | inl hop => exact h op hop
  | inr hop => exact h' op hop

theorem labelsBelow_mono {n n' : Nat} (h : LabelsBelow n ops) (hn : n ≤ n') :
    LabelsBelow n' ops := fun op hop hset => lt_of_lt_of_le (h op hop hset) hn

/-- A label is where it is set, if the ops in front do not set it. -/
theorem labelPos_append {front code back : List Op} {label i : Nat} {op : Op}
    (hfront : LabelsBelow label front) (hcode : LabelsBelow label (code.take i))
    (hop : code[i]? = some op) (hset : op.opc = .setLabel) (hlabel : op.args 0 = label) :
    labelPos (front ++ (code ++ back)) label = some (front.length + i) := by
  have hget : (front ++ (code ++ back))[front.length + i]? = some op := getElem?_append_add hop
  obtain ⟨hlt, hget'⟩ := List.getElem?_eq_some_iff.mp hget
  obtain ⟨hlti, -⟩ := List.getElem?_eq_some_iff.mp hop
  refine List.findIdx?_eq_some_iff_getElem.mpr ⟨hlt, ?_, ?_⟩
  · rw [hget']
    exact decide_eq_true ⟨hset, hlabel⟩
  · intro j hj
    have hjlt := lt_trans hj hlt
    have hmem : (front ++ (code ++ back))[j] ∈ front ++ code.take i := by
      have htake : (front ++ (code ++ back)).take (front.length + i) = front ++ code.take i := by
        rw [List.take_append, List.take_of_length_le (Nat.le_add_right _ _),
          Nat.add_sub_cancel_left, List.take_append_of_le_length hlti.le]
      rw [← htake, List.mem_take_iff_getElem]
      exact ⟨j, by omega, rfl⟩
    intro hp
    obtain ⟨hset', hlabel'⟩ := of_decide_eq_true hp
    have hlt' := labelsBelow_append hfront hcode _ hmem hset'
    rw [hlabel'] at hlt'
    exact Nat.lt_irrefl _ hlt'

/-- With labels below `k` in hand, a generator only sets labels that it or its caller has made. -/
def SetsBelow {α : Type} (k : Nat) (g : Gen α) : Prop :=
  ∀ b : Builder, k ≤ b.nbLabels → LabelsBelow b.nbLabels b.ops →
    b.nbLabels ≤ (g.run b).2.nbLabels ∧ LabelsBelow (g.run b).2.nbLabels (g.run b).2.ops

section
variable {α β : Type} {k : Nat}

theorem setsBelow_pure (a : α) : SetsBelow k (pure a : Gen α) := fun _ _ h => ⟨le_rfl, h⟩

theorem setsBelow_bind {g : Gen β} {f : β → Gen α} (hg : SetsBelow k g)
    (hf : ∀ a, SetsBelow k (f a)) : SetsBelow k (g >>= f) := by
  intro b hk hb
  obtain ⟨hle, hb₁⟩ := hg b hk hb
  obtain ⟨hle', hb₂⟩ := hf (g.run b).1 (g.run b).2 (hk.trans hle) hb₁
  exact ⟨hle.trans hle', hb₂⟩

theorem setsBelow_newTemp (ty : IrType) : SetsBelow k (newTemp ty) := fun _ _ h => ⟨le_rfl, h⟩

theorem setsBelow_newConst (ty : IrType) (val : BitVec 64) : SetsBelow k (newConst ty val) := by
  intro b _ h
  unfold newConst
  dsimp only
  split
  · exact ⟨le_rfl, h⟩
  · exact ⟨le_rfl, h⟩

theorem setsBelow_emitOp {op : Op} (h : op.opc = .setLabel → op.args 0 < k) :
    SetsBelow k (emitOp op) := by
  intro b hk hb
  refine ⟨le_rfl, labelsBelow_append hb ?_⟩
  intro op' hop' hset
  rw [List.mem_singleton.mp hop'] at hset ⊢
  exact lt_of_lt_of_le (h hset) hk

theorem setsBelow_emitTo {opc : Opcode} (h : opc ≠ .setLabel) (ty : IrType) (dst : Nat)
    (args : List Nat) : SetsBelow k (emitTo opc ty dst args) :=
  setsBelow_bind (setsBelow_emitOp fun hset => absurd hset h) fun _ => setsBelow_pure _

theorem setsBelow_newLabel {f : Nat → Gen α} (h : ∀ label, SetsBelow (max k (label + 1)) (f label)) :
    SetsBelow k (newLabel >>= f) := by
  intro b hk hb
  obtain ⟨hle, hb'⟩ := h b.nbLabels { b with nbLabels := b.nbLabels + 1 }
    (Nat.max_le.mpr ⟨Nat.le_succ_of_le hk, le_rfl⟩) (labelsBelow_mono hb (Nat.le_succ _))
  exact ⟨(Nat.le_succ _).trans hle, hb'⟩

end

end TcgRs.Analysis.GeneratedControl
