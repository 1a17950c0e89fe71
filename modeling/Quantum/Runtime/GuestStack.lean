import Quantum.Lib.ByteMem
import Quantum.Runtime.Dispatcher

/-!
# The guest stack

`GuestStack` of the runtime crate's `guest_stack.rs`: a region of the address space, and the RSP with which a
program starts on it.
-/

namespace Quantum.Runtime

/-- A region that the memory manager has allocated. -/
structure GuestStack where
  base : BitVec 64
  len : Nat
  fits : base.toNat + len < 2 ^ 64

namespace GuestStack

/-- The end of the region, cut to a multiple of 16. -/
def top (st : GuestStack) : BitVec 64 :=
  (st.base + BitVec.ofNat 64 st.len) &&& ~~~0xF#64

/-- The RSP that `entry_rsp` returns. -/
def entryRsp (st : GuestStack) : BitVec 64 :=
  st.top - 8#64

/-- What `entry_rsp` leaves in memory: the return address of the program is the sentinel. -/
def writeSentinel (st : GuestStack) (m : ByteMem) : ByteMem :=
  m.write 8 st.entryRsp stopSentinel

/-- The `n` bytes at `a` are in the region. -/
def Holds (st : GuestStack) (a : BitVec 64) (n : Nat) : Prop :=
  st.base.toNat ≤ a.toNat ∧ a.toNat + n ≤ st.base.toNat + st.len

instance (st : GuestStack) (a : BitVec 64) (n : Nat) : Decidable (st.Holds a n) :=
  inferInstanceAs (Decidable (_ ∧ _))

end GuestStack

end Quantum.Runtime
