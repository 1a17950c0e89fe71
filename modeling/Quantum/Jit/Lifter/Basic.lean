import Quantum.Jit.EmitterSimd
import Quantum.Jit.Iform

/-!
# The lifter: registers, conditions and addresses

The parts of `lifter.rs` that every instruction uses: the host register that holds a guest register
(`hostReg`), the host condition for a guest condition (`condX86ToA64`), the code that puts the
address of a memory operand in a scratch register (`addrIntoXtmp`), and loads, stores and masks of
an operand size.

The effective address of `[base + index * scale + disp]` is computed in two parts:
`memAddressInto` emits the additions and returns the part of the displacement that is left for the
unsigned offset of the load or store that follows.
-/

namespace Quantum.Jit

open A64 (Word Reg)
open EmitM

inductive LifterError where
  /-- Operation or operand form that is not lowered. -/
  | unsupported (op : Op)
  /-- The decoder reported `Op.unhandled`. -/
  | unhandled
  /-- Operand combination invalid for the operation. -/
  | badOperands
  deriving Repr, DecidableEq

/-- A computation of the lifter. -/
abbrev LiftM := EmitM LifterError

/-- The host register that holds a guest register. -/
def hostReg : GpReg → Reg
  | .rax => 0 | .rcx => 1 | .rdx => 2 | .rbx => 3 | .rsp => 19 | .rbp => 5 | .rsi => 6 | .rdi => 7
  | .r8 => 8 | .r9 => 9 | .r10 => 10 | .r11 => 11 | .r12 => 12 | .r13 => 13 | .r14 => 14
  | .r15 => 15

/-- The host condition that stands for a guest condition after a `SUBS`. -/
def condX86ToA64 : Cond → Option A64.Cond
  | .e => some .eq
  | .ne => some .ne
  | .b => some .cc
  | .nb => some .cs
  | .be => some .ls
  | .a => some .hi
  | .s => some .mi
  | .ns => some .pl
  | .l => some .lt
  | .nl => some .ge
  | .le => some .le
  | .g => some .gt
  | .o => some .vs
  | .no => some .vc
  | .p => some .vs
  | .np => some .vc

/-- Return `Unsupported op`. -/
def unsupported {α : Type} (op : Op) : LiftM α :=
  EmitM.fail (.unsupported op)

/-- The operand that must be there. -/
def operand (o : Option Operand) : LiftM Operand :=
  EmitM.okOr o .badOperands

/-- The size of a memory operand; the source calls it only on `Mem` and `RipRel`. -/
def Operand.memSize : Operand → OpSize
  | .mem m => m.size
  | .ripRel _ s => s
  | .reg _ s => s
  | .xmmReg _ s => s
  | .imm _ s => s

/-- Is it a `Mem` or a `RipRel`? -/
def Operand.isMem : Operand → Bool
  | .mem _ => true
  | .ripRel _ _ => true
  | _ => false

/-! ### Masks and extensions -/

/-- `AND rd, rs, #0xFF`. -/
def emitAndImmByte (rd rs : Reg) : LiftM Unit := rawWord (regs2Word 0x92401C00#32 rs rd)

/-- `AND rd, rs, #0xFFFF`. -/
def emitAndImmWord (rd rs : Reg) : LiftM Unit := rawWord (regs2Word 0x92403C00#32 rs rd)

/-- `AND rd, rs, #0xFFFFFFFF`. -/
def emitAndImmLo32 (rd rs : Reg) : LiftM Unit := rawWord (regs2Word 0x92407C00#32 rs rd)

/-- `SXTB rd, rs`. -/
def emitSxtByte (rd rs : Reg) : LiftM Unit := rawWord (regs2Word 0x93401C00#32 rs rd)

/-- `SXTH rd, rs`. -/
def emitSxtWord (rd rs : Reg) : LiftM Unit := rawWord (regs2Word 0x93403C00#32 rs rd)

/-- `SXTW rd, rs`. -/
def emitSxtw (rd rs : Reg) : LiftM Unit := rawWord (regs2Word 0x93407C00#32 rs rd)

/-- A word with a six-bit shift amount at bit 10 over constant opcode bits. -/
def lslWord (base : Word) (rm : Reg) (shift : BitVec 6) (rn rd : Reg) : Word :=
  base ||| bitField 16 rm ||| bitField 10 shift ||| bitField 5 rn ||| bitField 0 rd

/-- `ADD rd, rn, rm, LSL #shift`. -/
def emitAddLsl64 (rd rn rm : Reg) (shift : BitVec 6) : LiftM Unit :=
  rawWord (lslWord 0x8B000000#32 rm shift rn rd)

/-- `ORR rd, rn, rm, LSL #shift`. -/
def emitOrrLsl64 (rd rn rm : Reg) (shift : BitVec 6) : LiftM Unit :=
  rawWord (lslWord 0xAA000000#32 rm shift rn rd)

/-- `UBFM` or `SBFM` with the given rotation and top bit over constant opcode bits. -/
def bfmWord (base : Word) (immr imms : BitVec 6) (rn rd : Reg) : Word :=
  base ||| bitField 16 immr ||| bitField 10 imms ||| bitField 5 rn ||| bitField 0 rd

/-- `UBFM rd, rn, #immr, #imms`. -/
def emitUbfm64 (rd rn : Reg) (immr imms : BitVec 6) : LiftM Unit :=
  rawWord (bfmWord 0xD3400000#32 immr imms rn rd)

/-- `UXTW rd, rn`. -/
def emitUxtw (rd rn : Reg) : LiftM Unit := emitUbfm64 rd rn 0 31

/-- Mask `rd` to its low 32 bits when the operand size is `B4`. -/
def maskB4 (size : OpSize) (rd : Reg) : LiftM Unit :=
  if size = .b4 then emitAndImmLo32 rd rd else pure ()

/-! ### Loads and stores of an operand size -/

def loadSized (dst base : Reg) (offset : BitVec 32) : OpSize → LiftM Unit
  | .b8 => ldr64 dst base offset
  | .b4 => ldr32 dst base offset
  | .b2 => ldrh dst base offset
  | .b1 => ldrb dst base offset

def storeSized (src base : Reg) (offset : BitVec 32) : OpSize → LiftM Unit
  | .b8 => str64 src base offset
  | .b4 => str32 src base offset
  | .b2 => strh src base offset
  | .b1 => strb src base offset

/-! ### Effective addresses -/

def imm12Encodable (v : BitVec 32) : Bool :=
  decide (v.toNat < 2 ^ 12) || (decide (v &&& 0xFFF#32 = 0) && decide ((v >>> 12).toNat < 2 ^ 12))

/-- Add an immediate, through `X17` when it has no encoding. -/
def add64ImmSafe (rd rn : Reg) (imm : BitVec 32) : LiftM Unit :=
  if imm12Encodable imm then add64Imm rd rn imm
  else do
    loadConst64 17 (imm.setWidth 64)
    add64 rd rn 17

def sub64ImmSafe (rd rn : Reg) (imm : BitVec 32) : LiftM Unit :=
  if imm12Encodable imm then sub64Imm rd rn imm
  else do
    loadConst64 17 (imm.setWidth 64)
    sub64 rd rn 17

/-- The host register that holds a segment base. -/
def segReg : Seg → Reg
  | .gs => 24
  | .fs => 25

/-- The base of the address into `xtmp`. -/
def memBaseInto (base : Option GpReg) (xtmp : Reg) : LiftM Unit :=
  match base with
  | some b => mov64 xtmp (hostReg b)
  | none => loadConst64 xtmp 0

/-- Add the segment base. -/
def memSegInto (seg : Option Seg) (xtmp : Reg) : LiftM Unit :=
  match seg with
  | some sg => add64 xtmp xtmp (segReg sg)
  | none => pure ()

/-- Add the scaled index. -/
def memIndexInto (index : Option GpReg) (scale : Nat) (xtmp : Reg) : LiftM Unit :=
  match index with
  | some i =>
    match scale with
    | 2 => emitAddLsl64 xtmp xtmp (hostReg i) 1
    | 4 => emitAddLsl64 xtmp xtmp (hostReg i) 2
    | 8 => emitAddLsl64 xtmp xtmp (hostReg i) 3
    | _ => add64 xtmp xtmp (hostReg i)
  | none => pure ()

/-- The absolute value of a displacement. -/
def unsignedAbs (disp : BitVec 32) : BitVec 32 :=
  if disp.msb then -disp else disp

/-- Add what does not go to the load or store of a displacement; the result is what does. -/
def memDispInto (disp : BitVec 32) (xtmp : Reg) : LiftM (BitVec 32) :=
  if disp = 0 then pure 0
  else if 0 < disp.toInt ∧ disp.toNat < 2 ^ 24 then pure disp
  else if 0 < disp.toInt then do
    add64ImmSafe xtmp xtmp disp
    pure 0
  else do
    sub64ImmSafe xtmp xtmp (unsignedAbs disp)
    pure 0

/-- Put `m`'s address in `xtmp`, except for the displacement it returns. -/
def memAddressInto (m : Mem) (xtmp : Reg) : LiftM (BitVec 32) := do
  memBaseInto m.base xtmp
  memSegInto m.seg xtmp
  memIndexInto m.index m.scale xtmp
  memDispInto m.disp xtmp

/-- The address of a RIP-relative operand. -/
def ripRelTarget (inst : Inst) (disp : BitVec 32) : BitVec 64 :=
  inst.nextRip + disp.signExtend 64

/-- Put the address of a memory operand in `xtmp`, except for the displacement it returns. -/
def addrIntoXtmp (op : Operand) (inst : Inst) (xtmp : Reg) : LiftM (BitVec 32) :=
  match op with
  | .mem m => memAddressInto m xtmp
  | .ripRel disp _ => do
    loadConst64 xtmp (ripRelTarget inst disp)
    pure 0
  | _ => EmitM.fail .badOperands

/-- Load a memory operand of the given size into `X17`, its address in `X16`; the result is the
leftover displacement. -/
def loadOperand (m : Operand) (inst : Inst) (size : OpSize) : LiftM (BitVec 32) := do
  let leftover ← addrIntoXtmp m inst 16
  loadSized 17 16 leftover size
  pure leftover

end Quantum.Jit
