import Mathlib.Data.BitVec

/-!
# Guest instructions

The instruction representation that the decoder produces and the lifter consumes (`iform.rs`):
guest registers, operand sizes, memory operands, conditions, operations and decoded instructions.
-/

namespace Quantum.Jit

/-- The x86-64 general registers, in the order of their encodings. -/
inductive GpReg where
  | rax | rcx | rdx | rbx | rsp | rbp | rsi | rdi | r8 | r9 | r10 | r11 | r12 | r13 | r14 | r15
  deriving Repr, DecidableEq, Inhabited

namespace GpReg

/-- The ordinal of a register, the discriminant of the source's enumeration. -/
def index : GpReg → Nat
  | rax => 0 | rcx => 1 | rdx => 2 | rbx => 3 | rsp => 4 | rbp => 5 | rsi => 6 | rdi => 7
  | r8 => 8 | r9 => 9 | r10 => 10 | r11 => 11 | r12 => 12 | r13 => 13 | r14 => 14 | r15 => 15

def fromIndex : Nat → Option GpReg
  | 0 => some rax | 1 => some rcx | 2 => some rdx | 3 => some rbx
  | 4 => some rsp | 5 => some rbp | 6 => some rsi | 7 => some rdi
  | 8 => some r8 | 9 => some r9 | 10 => some r10 | 11 => some r11
  | 12 => some r12 | 13 => some r13 | 14 => some r14 | 15 => some r15
  | _ => none

/-- All registers, in order. -/
def all : List GpReg :=
  [rax, rcx, rdx, rbx, rsp, rbp, rsi, rdi, r8, r9, r10, r11, r12, r13, r14, r15]

theorem fromIndex_index (r : GpReg) : fromIndex r.index = some r := by
  cases r <;> rfl

end GpReg

/-- Width of an integer operand. -/
inductive OpSize where
  | b1 | b2 | b4 | b8
  deriving Repr, DecidableEq, Inhabited

/-- The number of bytes of an operand size. -/
def OpSize.bytes : OpSize → Nat
  | b1 => 1 | b2 => 2 | b4 => 4 | b8 => 8

/-- The number of bits of an operand size. -/
def OpSize.bits (s : OpSize) : Nat :=
  8 * s.bytes

/-- Segment overrides. -/
inductive Seg where
  | fs | gs
  deriving Repr, DecidableEq

/-- Memory operand `[base + index * scale + disp]`. -/
structure Mem where
  base : Option GpReg
  index : Option GpReg
  scale : Nat
  disp : BitVec 32
  size : OpSize
  seg : Option Seg
  scale_valid : scale = 1 ∨ scale = 2 ∨ scale = 4 ∨ scale = 8 := by decide
  deriving Repr, DecidableEq

/-- Operands.  `ripRel disp size` addresses `next_rip + disp`. -/
inductive Operand where
  | reg (r : GpReg) (size : OpSize)
  | xmmReg (n : BitVec 8) (size : OpSize)
  | imm (value : BitVec 64) (size : OpSize)
  | mem (m : Mem)
  | ripRel (disp : BitVec 32) (size : OpSize)
  deriving Repr, DecidableEq

/-- x86 condition codes. -/
inductive Cond where
  | o | no | b | nb | e | ne | be | a | s | ns | p | np | l | nl | le | g
  deriving Repr, DecidableEq

/-- Operations. -/
inductive Op where
  | mov | movzx | movsx | movsxd | lea | xchg | push | pop | pushfq | popfq
  | cmov (c : Cond)
  | add | adc | sub | sbb | inc | dec | neg | mul | imul | div | idiv | cdq | cqo | cwde
  | and | or | xor | not | test | cmp | shl | shr | sar | rol | ror | rcl | rcr
  | bt | bts | btr | btc | bsf | bsr
  | xadd | cmpxchg
  | set (c : Cond)
  | call | callIndirect | ret | retImm | jmp | jmpIndirect
  | jcc (c : Cond)
  | leave | enter | int3 | int | ud2 | hlt | syscall | cpuid | rdtsc
  | cld | std | clc | stc | cmc
  | movs | stos | lods | cmps | scas
  | nop
  | movqXmm | movsdXmm | movssXmm | movdqXmm | pxorXmm | pandXmm | porXmm
  | addScalar | subScalar | mulScalar | divScalar
  | cvtIntToScalar | cvtScalarToInt | cvtScalarToIntTrunc | cvtSsToSd | cvtSdToSs
  | ucomisScalar | minScalar | maxScalar | sqrtScalar
  | bswap
  | paddQ | psubQ | paddD | psubD | paddW | psubW | paddB | psubB
  | addPacked | subPacked | mulPacked | divPacked
  | pcmpeqLane (lane : OpSize) | psllImm (lane : OpSize) | psrlImm (lane : OpSize)
  | psraImm (lane : OpSize)
  | pshufD | pmullW | pslldqImm | psrldqImm
  | punpckLow (lane : OpSize) | punpckHigh (lane : OpSize)
  | pmovmskB
  | unhandled
  deriving Repr, DecidableEq

/-- One decoded instruction; `len` is the number of guest bytes. -/
structure Inst where
  op : Op
  operand0 : Option Operand
  operand1 : Option Operand
  operand2 : Option Operand
  len : BitVec 8
  guestRip : BitVec 64
  deriving Repr, DecidableEq

/-- An instruction without operands. -/
def Inst.empty (op : Op) (guestRip : BitVec 64) (len : BitVec 8) : Inst :=
  ⟨op, none, none, none, len, guestRip⟩

/-- The address of the byte after the instruction. -/
def Inst.nextRip (i : Inst) : BitVec 64 :=
  i.guestRip + i.len.setWidth 64

end Quantum.Jit
