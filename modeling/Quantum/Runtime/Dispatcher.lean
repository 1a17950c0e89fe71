import Mathlib.Data.BitVec

/-!
# Guest state between blocks

`GuestContext` of the runtime crate's `dispatcher.rs`.
-/

namespace Quantum.Runtime

/-- What a block that stops returns as the next RIP. -/
def stopSentinel : BitVec 64 :=
  0xDEADDEADDEADDEAD#64

instance neZero_gprs : NeZero 16 :=
  ⟨by decide⟩

/-- The guest registers across round trips of the dispatcher, indexed by the x86 register number. -/
structure GuestContext where
  gprs : Fin 16 → BitVec 64
  rip : BitVec 64
  flags : BitVec 64
  gsBase : BitVec 64
  fsBase : BitVec 64
  xmms : Fin 16 → BitVec 128

namespace GuestContext

/-- `GuestContext::default()`. -/
def zero : GuestContext :=
  ⟨fun _ => 0, 0, 0, 0, 0, fun _ => 0⟩

def setGpr (ctx : GuestContext) (i : Fin 16) (v : BitVec 64) : GuestContext :=
  { ctx with gprs := Function.update ctx.gprs i v }

end GuestContext

end Quantum.Runtime
