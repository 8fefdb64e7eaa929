import TcgRs.Model.X86.Emitter

/-!
# The code buffer

`backend/src/code_buffer.rs`: a region of `size` bytes with a write cursor.  The emit methods
append at the cursor and the patch methods overwrite bytes that are already there.  A failed
assertion of the source is `none`; the run of `emit_u8`, `emit_u32` and `emit_u64` calls that
writes one instruction is one `emitBytes` of its bytes, which fails exactly when one of these
calls does.
-/

set_option autoImplicit false

namespace TcgRs.Model

open X86 (Byte)

structure CodeBuffer where
  size : Nat
  offset : Nat
  mem : Nat → Byte

namespace CodeBuffer

/-- Remaining writable bytes. -/
def remaining (buf : CodeBuffer) : Nat := buf.size - buf.offset

/-- The memory with the bytes of `bs` written from `pos` on. -/
def writeAt (mem : Nat → Byte) (pos : Nat) (bs : List Byte) : Nat → Byte :=
  fun a => if pos ≤ a ∧ a < pos + bs.length then bs.getD (a - pos) 0 else mem a

/-- Append bytes at the cursor; `none` is the "code buffer overflow" assertion. -/
def emitBytes (buf : CodeBuffer) (bs : List Byte) : Option CodeBuffer :=
  if buf.offset + bs.length ≤ buf.size then
    some { buf with offset := buf.offset + bs.length, mem := writeAt buf.mem buf.offset bs }
  else none

/-- Patch a `u32` at the given offset, least significant byte first. -/
def patchU32 (buf : CodeBuffer) (pos : Nat) (val : BitVec 32) : Option CodeBuffer :=
  if pos + 4 ≤ buf.size then some { buf with mem := writeAt buf.mem pos (X86.emitU32 val) }
  else none

/-- Read a `u32` at the given offset. -/
def readU32 (buf : CodeBuffer) (pos : Nat) : BitVec 32 :=
  buf.mem (pos + 3) ++ buf.mem (pos + 2) ++ buf.mem (pos + 1) ++ buf.mem pos

/-! ## Reading what was written -/

theorem writeAt_of_lt {mem : Nat → Byte} {pos a : Nat} {bs : List Byte} (h : a < pos) :
    writeAt mem pos bs a = mem a := by
  unfold writeAt
  rw [if_neg (by omega)]

theorem writeAt_of_le {mem : Nat → Byte} {pos a : Nat} {bs : List Byte}
    (h : pos + bs.length ≤ a) : writeAt mem pos bs a = mem a := by
  unfold writeAt
  rw [if_neg (by omega)]

theorem writeAt_add {mem : Nat → Byte} {pos k : Nat} {bs : List Byte} (h : k < bs.length) :
    writeAt mem pos bs (pos + k) = bs.getD k 0 := by
  unfold writeAt
  rw [if_pos (by omega), Nat.add_sub_cancel_left]

theorem bytes_append_eq (v : BitVec 32) :
    ((v >>> 24).setWidth 8 ++ (v >>> 16).setWidth 8 ++ (v >>> 8).setWidth 8 ++ v.setWidth 8 :
      BitVec 32) = v := by
  apply BitVec.eq_of_getLsbD_eq
  intro i hi
  simp only [BitVec.getLsbD_append, BitVec.getLsbD_setWidth, BitVec.getLsbD_ushiftRight]
  split
  · simp [*]
  · split
    · have : 8 + (i - 8) = i := by omega
      simp [*]
    · split
      · have : 16 + (i - 8 - 8) = i := by omega
        simp [*]
      · have : 24 + (i - 8 - 8 - 8) = i := by omega
        have : i - 8 - 8 - 8 < 8 := by omega
        simp [*]

/-- Four bytes written by one store read back as the word stored. -/
theorem readU32_write {buf : CodeBuffer} {pos : Nat} {val : BitVec 32}
    (h : buf.mem pos = val.setWidth 8) (h1 : buf.mem (pos + 1) = (val >>> 8).setWidth 8)
    (h2 : buf.mem (pos + 2) = (val >>> 16).setWidth 8)
    (h3 : buf.mem (pos + 3) = (val >>> 24).setWidth 8) : buf.readU32 pos = val := by
  unfold readU32
  rw [h, h1, h2, h3]
  exact bytes_append_eq val

theorem readU32_patchU32 {buf buf' : CodeBuffer} {pos : Nat} {val : BitVec 32}
    (h : buf.patchU32 pos val = some buf') : buf'.readU32 pos = val := by
  unfold patchU32 at h
  split at h
  · injection h with h
    subst h
    have hlen : (X86.emitU32 val).length = 4 := rfl
    refine readU32_write ?_ ?_ ?_ ?_
    · exact writeAt_add (k := 0) (by omega)
    · exact writeAt_add (by omega)
    · exact writeAt_add (by omega)
    · exact writeAt_add (by omega)
  · cases h

/-- A word away from the written bytes is not changed by them. -/
theorem readU32_congr {buf buf' : CodeBuffer} {pos : Nat}
    (h : ∀ a, pos ≤ a → a < pos + 4 → buf'.mem a = buf.mem a) :
    buf'.readU32 pos = buf.readU32 pos := by
  unfold readU32
  rw [h pos (by omega) (by omega), h (pos + 1) (by omega) (by omega),
    h (pos + 2) (by omega) (by omega), h (pos + 3) (by omega) (by omega)]

theorem readU32_patchU32_of_disjoint {buf buf' : CodeBuffer} {pos pos' : Nat} {val : BitVec 32}
    (h : buf.patchU32 pos val = some buf') (hd : pos' + 4 ≤ pos ∨ pos + 4 ≤ pos') :
    buf'.readU32 pos' = buf.readU32 pos' := by
  unfold patchU32 at h
  split at h
  · injection h with h
    subst h
    refine readU32_congr (fun a h1 h2 => ?_)
    have hlen : (X86.emitU32 val).length = 4 := rfl
    rcases hd with hd | hd
    · exact writeAt_of_lt (by omega)
    · exact writeAt_of_le (by omega)
  · cases h

theorem patchU32_isSome {buf : CodeBuffer} {pos : Nat} {val : BitVec 32}
    (h : pos + 4 ≤ buf.size) : ∃ buf', buf.patchU32 pos val = some buf' := by
  unfold patchU32
  rw [if_pos h]
  exact ⟨_, rfl⟩

theorem patchU32_size_offset {buf buf' : CodeBuffer} {pos : Nat} {val : BitVec 32}
    (h : buf.patchU32 pos val = some buf') : buf'.size = buf.size ∧ buf'.offset = buf.offset := by
  unfold patchU32 at h
  split at h
  · injection h with h
    subst h
    exact ⟨rfl, rfl⟩
  · cases h

/-- What an emission that does not overflow does. -/
theorem emitBytes_eq_some {buf buf' : CodeBuffer} {bs : List Byte}
    (h : buf.emitBytes bs = some buf') :
    buf.offset + bs.length ≤ buf.size ∧ buf'.size = buf.size ∧
      buf'.offset = buf.offset + bs.length ∧ buf'.mem = writeAt buf.mem buf.offset bs := by
  unfold emitBytes at h
  split at h
  · next hle =>
    injection h with h
    subst h
    exact ⟨hle, rfl, rfl, rfl⟩
  · cases h

end CodeBuffer

end TcgRs.Model
