import Mathlib.Data.BitVec

/-!
# Register numbers

The integer and the floating-point registers are numbered by `Fin 32`.
-/

set_option autoImplicit false

namespace TcgRs.Model.Riscv

instance neZero_32 : NeZero 32 := ⟨by decide⟩

end TcgRs.Model.Riscv
