import Quantum.Lib.Lanes

/-!
# Packed integer operations

What the SSE2 packed-integer instructions compute, lane by lane.  `a` is the destination's old value and `b`
the source.
-/

namespace Quantum.X86

/-- Operations on two vectors; the number is the lane width in bits. -/
inductive PackedOp where
  | xor | and | or
  | add (k : Nat) | sub (k : Nat) | cmpeq (k : Nat) | mull (k : Nat)
  | unpackLow (k : Nat) | unpackHigh (k : Nat)
  deriving Repr, DecidableEq

def PackedOp.eval : PackedOp → BitVec 128 → BitVec 128 → BitVec 128
  | .xor, a, b => a ^^^ b
  | .and, a, b => a &&& b
  | .or, a, b => a ||| b
  | .add k, a, b => ofLanes 128 fun i => lane k a i + lane k b i
  | .sub k, a, b => ofLanes 128 fun i => lane k a i - lane k b i
  | .cmpeq k, a, b => ofLanes 128 fun i => if lane k a i = lane k b i then BitVec.allOnes k else 0
  | .mull k, a, b => ofLanes 128 fun i => lane k a i * lane k b i
  | .unpackLow k, a, b => ofLanes 128 fun i => lane k (if i % 2 = 0 then a else b) (i / 2)
  | .unpackHigh k, a, b => ofLanes 128 fun i => lane k (if i % 2 = 0 then a else b) (64 / k + i / 2)

inductive PackedShift where
  | sll | srl | sra
  deriving Repr, DecidableEq

/-- Shifts of lanes of `k` bits.  A count of `k` or more leaves zero, or the sign everywhere. -/
def PackedShift.eval (k count : Nat) (a : BitVec 128) : PackedShift → BitVec 128
  | .sll => ofLanes 128 fun i => if count < k then lane k a i <<< count else 0
  | .srl => ofLanes 128 fun i => if count < k then lane k a i >>> count else 0
  | .sra => ofLanes 128 fun i => (lane k a i).sshiftRight (if count < k then count else k - 1)

/-- PSLLDQ. -/
def shiftBytesLeft (count : Nat) (a : BitVec 128) : BitVec 128 :=
  ofLanes 128 fun i => if i < count then 0#8 else lane 8 a (i - count)

/-- PSRLDQ. -/
def shiftBytesRight (count : Nat) (a : BitVec 128) : BitVec 128 :=
  ofLanes 128 fun i => if i + count < 16 then lane 8 a (i + count) else 0#8

/-- PSHUFD: every two bits of the immediate choose a lane. -/
def shuffleD (imm : BitVec 8) (a : BitVec 128) : BitVec 128 :=
  ofLanes 128 fun i => lane 32 a (lane 2 imm i).toNat

/-- PMOVMSKB: the signs of the sixteen bytes, zero-extended. -/
def moveMask (a : BitVec 128) : BitVec 64 :=
  (ofLanes 16 fun i => BitVec.ofBool (lane 8 a i).msb).setWidth 64

end Quantum.X86
