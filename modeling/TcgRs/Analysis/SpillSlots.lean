import TcgRs.Model.Ir.Builder
import TcgRs.Analysis.RegValues

/-!
# Spill slots

The stack slots that `alloc_temp_frame` hands out during one compilation: a temp keeps its slot,
slots lie apart in the spill area, and `Context::reset` empties the area.  The register allocator
makes no other steps.
-/

set_option autoImplicit false

namespace TcgRs.Analysis.SpillSlots

open TcgRs.Model TcgRs.Model.Ir TcgRs.Model.X86 TcgRs.Model.RegAlloc TcgRs.Library
open TcgRs.Analysis.RegBooks TcgRs.Analysis.RegValues

/-! ## Runs -/

/-- `x` is the temp `y`, perhaps somewhere else: in a register, in memory, dead. -/
structure Moved (x y : Temp) : Prop where
  ty : x.ty = y.ty
  kind : x.kind = y.kind
  memAllocated : x.memAllocated = y.memAllocated
  val : x.val = y.val
  memBase : x.memBase = y.memBase
  memOffset : x.memOffset = y.memOffset

/-- The temps whose home is a slot of the frame. -/
def isLocal (temp : Temp) : Bool := !temp.isGlobalOrFixed

/-- A compilation from `ctx` on: in any order, locals are made, temps move, and
`alloc_temp_frame` is called, with the temps and results in `slots`. -/
inductive FrameRun (ctx : Context) : List (Nat × Int) → Context → Prop where
  | start : FrameRun ctx [] ctx
  | new {slots : List (Nat × Int)} {c : Context} (hrun : FrameRun ctx slots c) (temp : Temp)
      (hlocal : isLocal temp = true) (hfresh : temp.memAllocated = false) :
      FrameRun ctx slots (c.pushTemp temp)
  | move {slots : List (Nat × Int)} {c : Context} (hrun : FrameRun ctx slots c) (t : Nat)
      (f : Temp → Temp) (hf : ∀ x, Moved (f x) x) : FrameRun ctx slots (c.modTemp t f)
  | alloc {slots : List (Nat × Int)} {c c' : Context} {t : Nat} {temp : Temp} {offset : Int}
      (hrun : FrameRun ctx slots c) (ht : c.temp t = some temp) (hlocal : isLocal temp = true)
      (h : c.allocTempFrame t = some (c', offset)) : FrameRun ctx (slots ++ [(t, offset)]) c'

/-- The temps that have a slot. -/
def HasSlot (ctx : Context) (t : Nat) (temp : Temp) : Prop :=
  ctx.temp t = some temp ∧ isLocal temp = true ∧ temp.memAllocated = true

/-- The end of a temp's slot. -/
def slotEnd (temp : Temp) : Int := temp.memOffset + temp.ty.sizeBytes

/-- The spill area of a context whose frame starts at `start` and ends at `stop`. -/
structure Area (start stop : Int) (ctx : Context) : Prop where
  start_le : start ≤ ctx.frameAllocEnd
  frame_start : ctx.frameStart = start
  frame_end : ctx.frameEnd = stop
  inside : ∀ t temp, HasSlot ctx t temp → start ≤ temp.memOffset ∧
    slotEnd temp ≤ ctx.frameAllocEnd ∧ slotEnd temp ≤ stop ∧
    (temp.ty.sizeBytes : Int) ∣ temp.memOffset
  apart : ∀ t u temp temp', HasSlot ctx t temp → HasSlot ctx u temp' → t ≠ u →
    slotEnd temp ≤ temp'.memOffset ∨ slotEnd temp' ≤ temp.memOffset

/-- The state after `set_frame` or `reset`: the area is empty. -/
structure Empty (ctx : Context) : Prop where
  allocEnd : ctx.frameAllocEnd = ctx.frameStart
  none : ∀ t temp, ¬ HasSlot ctx t temp

theorem Empty.area {ctx : Context} (h : Empty ctx) : Area ctx.frameStart ctx.frameEnd ctx where
  start_le := h.allocEnd.ge
  frame_start := rfl
  frame_end := rfl
  inside t temp hs := absurd hs (h.none t temp)
  apart t _ temp _ hs _ _ := absurd hs (h.none t temp)

/-! ## Steps keep the area -/

section

variable {start stop : Int} {c c' : Context}

/-- When every temp with a slot had the same slot before. -/
theorem Area.of_slots (h : Area start stop c) (hend : c'.frameAllocEnd = c.frameAllocEnd)
    (hstart : c'.frameStart = c.frameStart) (hstop : c'.frameEnd = c.frameEnd)
    (hold : ∀ t temp, HasSlot c' t temp → ∃ x, HasSlot c t x ∧ x.ty = temp.ty ∧
      x.memOffset = temp.memOffset) : Area start stop c' := by
  have hslot {x temp : Temp} (hty : x.ty = temp.ty) (hoff : x.memOffset = temp.memOffset) :
      slotEnd x = slotEnd temp := by
    unfold slotEnd
    rw [hty, hoff]
  refine ⟨hend ▸ h.start_le, hstart.trans h.frame_start, hstop.trans h.frame_end, ?_, ?_⟩
  · intro t temp ht
    obtain ⟨x, hx, hty, hoff⟩ := hold t temp ht
    rw [hend, ← hoff, ← hty, ← hslot hty hoff]
    exact h.inside t x hx
  · intro t u temp temp' ht hu hne
    obtain ⟨x, hx, hty, hoff⟩ := hold t temp ht
    obtain ⟨x', hx', hty', hoff'⟩ := hold u temp' hu
    rw [← hoff, ← hoff', ← hslot hty hoff, ← hslot hty' hoff']
    exact h.apart t u x x' hx hx' hne

theorem temp_pushTemp {t : Nat} {temp x : Temp} (h : (c.pushTemp temp).temp t = some x) :
    c.temp t = some x ∨ x = temp := by
  unfold Context.temp at h ⊢
  split at h
  · rename_i hlt
    injection h with h
    by_cases ht : t = c.nbTemps
    · subst ht
      exact .inr (h.symm.trans (Function.update_self _ _ _))
    · have hlt' : t < c.nbTemps := Nat.lt_of_le_of_ne (Nat.lt_succ_iff.mp hlt) ht
      rw [if_pos hlt', ← h]
      exact .inl (congrArg some (Function.update_of_ne ht _ _).symm)
  · cases h

theorem Area.pushTemp (h : Area start stop c) {temp : Temp} (hfresh : temp.memAllocated = false) :
    Area start stop (c.pushTemp temp) := by
  refine h.of_slots rfl rfl rfl ?_
  intro t x hx
  cases temp_pushTemp hx.1 with
  | inl ht => exact ⟨x, ⟨ht, hx.2⟩, rfl, rfl⟩
  | inr ht =>
    have := hx.2.2
    rw [ht, hfresh] at this
    cases this

theorem isLocal_moved {x y : Temp} (h : Moved x y) : isLocal x = isLocal y := by
  unfold isLocal Temp.isGlobalOrFixed
  rw [h.kind]

theorem Area.move (h : Area start stop c) (t : Nat) {f : Temp → Temp}
    (hf : ∀ x, Moved (f x) x) : Area start stop (c.modTemp t f) := by
  refine h.of_slots rfl rfl rfl ?_
  intro u temp hu
  cases temp_cases hu.1 with
  | inl hold => exact ⟨temp, ⟨hold.2, hu.2⟩, rfl, rfl⟩
  | inr hnew =>
    obtain ⟨rfl, x, hx, rfl⟩ := hnew
    have hm := hf x
    exact ⟨x, ⟨hx, (isLocal_moved hm).symm.trans hu.2.1, hm.memAllocated.symm.trans hu.2.2⟩,
      hm.ty.symm, hm.memOffset.symm⟩

/-- What a call that does not overflow the area does: the slot is there already, or it is the
aligned space behind all others. -/
theorem allocTempFrame_cases {t : Nat} {temp : Temp} {offset : Int} (ht : c.temp t = some temp)
    (h : c.allocTempFrame t = some (c', offset)) :
    (temp.memAllocated = true ∧ c' = c ∧ offset = temp.memOffset) ∨
    (temp.memAllocated = false ∧ c.frameAllocEnd ≤ offset ∧ (temp.ty.sizeBytes : Int) ∣ offset ∧
      offset + temp.ty.sizeBytes ≤ c.frameEnd ∧
      c' = { c with frameAllocEnd := offset + temp.ty.sizeBytes }.modTemp t fun x =>
        { x with memAllocated := true, memOffset := offset }) := by
  obtain ⟨x, hx, h⟩ := Option.bind_eq_some_iff.mp h
  rw [ht] at hx
  cases hx
  split at h
  · rename_i ha
    injection h with h
    injection h with h hoff
    exact .inl ⟨ha, h.symm, hoff.symm⟩
  · rename_i ha
    dsimp only at h
    split at h
    · rename_i hle
      injection h with h
      injection h with h hoff
      have hlow := le_align c.frameAllocEnd (sizeBytes_pos temp.ty)
      rw [hoff] at h hlow hle
      refine .inr ⟨Bool.not_eq_true _ ▸ ha, hlow, ?_, hle, h.symm⟩
      exact ⟨_, hoff.symm.trans (Int.mul_comm _ _)⟩
    · cases h

/-- The temps with a slot after a new one was made for `t`. -/
theorem hasSlot_newSlot {t u : Nat} {temp x : Temp} {offset e : Int} (ht : c.temp t = some temp)
    (h : HasSlot ({ c with frameAllocEnd := e }.modTemp t fun x =>
      { x with memAllocated := true, memOffset := offset }) u x) :
    (u ≠ t ∧ HasSlot c u x) ∨
      (u = t ∧ x = { temp with memAllocated := true, memOffset := offset }) := by
  cases temp_cases h.1 with
  | inl hold => exact .inl ⟨hold.1, hold.2, h.2⟩
  | inr hnew =>
    obtain ⟨rfl, y, hy, rfl⟩ := hnew
    have hy' : c.temp u = some y := hy
    rw [ht] at hy'
    injection hy' with hy'
    exact .inr ⟨rfl, by rw [hy']⟩

theorem Area.alloc (h : Area start stop c) {t : Nat} {temp : Temp} {offset : Int}
    (ht : c.temp t = some temp) (halloc : c.allocTempFrame t = some (c', offset)) :
    Area start stop c' := by
  cases allocTempFrame_cases ht halloc with
  | inl hkept => exact hkept.2.1 ▸ h
  | inr hmade =>
    obtain ⟨-, hlow, hdvd, htop, rfl⟩ := hmade
    have hsize := sizeBytes_pos temp.ty
    have hstart := h.start_le
    have hstop := h.frame_end
    have hold {u : Nat} {x : Temp} (hu : HasSlot c u x) : slotEnd x ≤ offset :=
      (h.inside u x hu).2.1.trans hlow
    refine ⟨?_, h.frame_start, h.frame_end, ?_, ?_⟩
    · show start ≤ offset + temp.ty.sizeBytes
      omega
    · intro u x hu
      cases hasSlot_newSlot ht hu with
      | inl hu' =>
        obtain ⟨hle, hend, hin, halign⟩ := h.inside u x hu'.2
        refine ⟨hle, ?_, hin, halign⟩
        show slotEnd x ≤ offset + temp.ty.sizeBytes
        omega
      | inr hu' =>
        obtain ⟨-, rfl⟩ := hu'
        refine ⟨?_, le_rfl, ?_, hdvd⟩
        · show start ≤ offset
          omega
        · show offset + temp.ty.sizeBytes ≤ stop
          omega
    · intro u w x x' hu hw hne
      cases hasSlot_newSlot ht hu with
      | inl hu' =>
        cases hasSlot_newSlot ht hw with
        | inl hw' => exact h.apart u w x x' hu'.2 hw'.2 hne
        | inr hw' =>
          obtain ⟨-, rfl⟩ := hw'
          exact .inl (hold hu'.2)
      | inr hu' =>
        obtain ⟨rfl, rfl⟩ := hu'
        cases hasSlot_newSlot ht hw with
        | inl hw' => exact .inr (hold hw'.2)
        | inr hw' => exact absurd hw'.1.symm hne

end

/-! ## Steps keep each slot -/

/-- The slot of temp `t` is at `offset`. -/
def SlotAt (c : Context) (t : Nat) (offset : Int) : Prop :=
  ∃ temp, HasSlot c t temp ∧ temp.memOffset = offset

section

variable {c c' : Context} {t : Nat} {offset : Int}

theorem SlotAt.pushTemp (h : SlotAt c t offset) (temp : Temp) :
    SlotAt (c.pushTemp temp) t offset := by
  obtain ⟨x, ⟨ht, hx⟩, hoff⟩ := h
  refine ⟨x, ⟨?_, hx⟩, hoff⟩
  unfold Context.temp at ht ⊢
  split at ht
  · rename_i hlt
    have hlt' : t < (c.pushTemp temp).nbTemps := Nat.lt_succ_of_lt hlt
    rw [if_pos hlt', ← ht]
    exact congrArg some (Function.update_of_ne (Nat.ne_of_lt hlt) _ _)
  · cases ht

theorem SlotAt.move (h : SlotAt c t offset) (u : Nat) {f : Temp → Temp}
    (hf : ∀ x, Moved (f x) x) : SlotAt (c.modTemp u f) t offset := by
  obtain ⟨x, ⟨ht, hlocal, hall⟩, hoff⟩ := h
  by_cases hu : t = u
  · have hm := hf x
    refine ⟨f x, ⟨?_, (isLocal_moved hm).trans hlocal, hm.memAllocated.trans hall⟩,
      hm.memOffset.trans hoff⟩
    rw [temp_modTemp, if_pos hu, ← hu, ht]
    rfl
  · refine ⟨x, ⟨?_, hlocal, hall⟩, hoff⟩
    rw [temp_modTemp, if_neg hu]
    exact ht

/-- A call makes the slot it returns, and the other slots stay. -/
theorem slotAt_alloc {temp : Temp} (ht : c.temp t = some temp) (hlocal : isLocal temp = true)
    (h : c.allocTempFrame t = some (c', offset)) :
    SlotAt c' t offset ∧ ∀ u o, SlotAt c u o → SlotAt c' u o := by
  cases allocTempFrame_cases ht h with
  | inl hkept =>
    obtain ⟨hall, rfl, hoff⟩ := hkept
    exact ⟨⟨temp, ⟨ht, hlocal, hall⟩, hoff.symm⟩, fun _ _ hu => hu⟩
  | inr hmade =>
    obtain ⟨hfresh, -, -, -, rfl⟩ := hmade
    constructor
    · refine ⟨{ temp with memAllocated := true, memOffset := offset }, ⟨?_, hlocal, rfl⟩, rfl⟩
      rw [temp_modTemp, if_pos rfl]
      exact congrArg (Option.map _) ht
    · intro u o hu
      obtain ⟨x, ⟨hx, hx'⟩, hoff⟩ := hu
      refine ⟨x, ⟨?_, hx'⟩, hoff⟩
      have hne : u ≠ t := by
        intro heq
        rw [heq, ht] at hx
        injection hx with hx
        rw [← hx, hfresh] at hx'
        cases hx'.2
      rw [temp_modTemp, if_neg hne]
      exact hx

end

/-- After any run: the area is in order, and each call's result is where its temp lives now. -/
theorem FrameRun.spec {ctx c : Context} {slots : List (Nat × Int)} (h : FrameRun ctx slots c)
    (he : Empty ctx) :
    Area ctx.frameStart ctx.frameEnd c ∧ ∀ s ∈ slots, SlotAt c s.1 s.2 := by
  induction h with
  | start => exact ⟨he.area, nofun⟩
  | new hrun temp hlocal hfresh ih =>
    exact ⟨ih.1.pushTemp hfresh, fun s hs => (ih.2 s hs).pushTemp temp⟩
  | move hrun t f hf ih => exact ⟨ih.1.move t hf, fun s hs => (ih.2 s hs).move t hf⟩
  | alloc hrun ht hlocal halloc ih =>
    obtain ⟨hnew, hold⟩ := slotAt_alloc ht hlocal halloc
    refine ⟨ih.1.alloc ht halloc, ?_⟩
    intro s hs
    cases List.mem_append.mp hs with
    | inl hs => exact hold _ _ (ih.2 s hs)
    | inr hs =>
      rw [List.mem_singleton.mp hs]
      exact hnew

/-! ## Reset -/

/-- The globals are in front. -/
def GlobalsFirst (c : Context) : Prop :=
  c.nbGlobals ≤ c.nbTemps ∧ ∀ t < c.nbGlobals, isLocal (c.temps t) = false

theorem globalsFirst_update {c : Context} (h : GlobalsFirst c) (t : Nat) (temp : Temp)
    (hlocal : t < c.nbGlobals → isLocal temp = false) {n : Nat} (hn : c.nbTemps ≤ n) {e : Int} :
    GlobalsFirst { c with temps := Function.update c.temps t temp, nbTemps := n,
                          frameAllocEnd := e } := by
  refine ⟨h.1.trans hn, ?_⟩
  intro u hu
  by_cases heq : u = t
  · subst heq
    exact (congrArg isLocal (Function.update_self u temp c.temps)).trans (hlocal hu)
  · exact (congrArg isLocal (Function.update_of_ne heq temp c.temps)).trans (h.2 u hu)

theorem FrameRun.globalsFirst {ctx c : Context} {slots : List (Nat × Int)}
    (h : FrameRun ctx slots c) (hfirst : GlobalsFirst ctx) : GlobalsFirst c := by
  induction h with
  | start => exact hfirst
  | @new slots c hrun temp hlocal hfresh ih =>
    exact globalsFirst_update ih c.nbTemps _ (fun hlt => absurd ih.1 (Nat.not_le.mpr hlt))
      (Nat.le_succ _)
  | @move slots c hrun t f hf ih =>
    exact globalsFirst_update ih t _ (fun hlt => (isLocal_moved (hf _)).trans (ih.2 t hlt)) le_rfl
  | @alloc slots c c' t temp offset hrun ht hlocal halloc ih =>
    cases allocTempFrame_cases ht halloc with
    | inl hkept => exact hkept.2.1 ▸ ih
    | inr hmade =>
      obtain ⟨-, -, -, -, rfl⟩ := hmade
      exact globalsFirst_update ih t { c.temps t with memAllocated := true, memOffset := offset }
        (fun hlt => ih.2 t hlt) le_rfl

theorem isLocal_reset (temp : Temp) : isLocal temp.reset = isLocal temp := by
  unfold isLocal Temp.isGlobalOrFixed Temp.reset
  cases hkind : temp.kind <;> simp [hkind]

/-- `Context::reset` empties the area: no temp that survives has a slot in it. -/
theorem empty_reset {c : Context} (h : GlobalsFirst c) : Empty c.reset := by
  refine ⟨rfl, ?_⟩
  intro t temp hs
  have ht := hs.1
  unfold Context.temp at ht
  split at ht
  · rename_i hlt
    have hlt' : t < c.nbGlobals := lt_of_lt_of_le hlt (Nat.min_le_right _ _)
    injection ht with ht
    have htemp : c.reset.temps t = (c.temps t).reset := if_pos hlt'
    have hlocal := hs.2.1
    rw [← ht, htemp, isLocal_reset, h.2 t hlt'] at hlocal
    cases hlocal
  · cases ht

/-- Runs in sequence. -/
theorem FrameRun.trans {ctx c c' : Context} {slots slots' : List (Nat × Int)}
    (h : FrameRun ctx slots c) (h' : FrameRun c slots' c') : FrameRun ctx (slots ++ slots') c' := by
  induction h' with
  | start =>
    rw [List.append_nil]
    exact h
  | new hrun temp hlocal hfresh ih => exact ih.new temp hlocal hfresh
  | move hrun t f hf ih => exact ih.move t f hf
  | alloc hrun ht hlocal halloc ih =>
    rw [← List.append_assoc]
    exact ih.alloc ht hlocal halloc

end TcgRs.Analysis.SpillSlots
