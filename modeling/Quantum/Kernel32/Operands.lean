import Mathlib.Data.Nat.Notation
import Quantum.Lib.Checked

/-!
# Operands of shader instructions

`decode_operand`: an operand token, an extended token if bit 31 asks for one, and the words of an immediate
or of a register index.  `None` is the error `()`; the additions to the cursor, a `usize` of 64 bits, panic
when they overflow.
-/

namespace Quantum.Kernel32.Dxbc

inductive OperandType where
  | temp
  | input
  | output
  | indexableTemp
  | immediate32
  | constantBuffer
  | sampler
  | resource
  | nullObject
  | unknown (raw : BitVec 8)
  deriving DecidableEq

def OperandType.fromRaw (v : BitVec 8) : OperandType :=
  match v with
  | 0 => .temp
  | 1 => .input
  | 2 => .output
  | 3 => .indexableTemp
  | 4 => .immediate32
  | 8 => .constantBuffer
  | 6 => .sampler
  | 7 => .resource
  | 13 => .nullObject
  | other => .unknown other

/-- Component selection and masking; the components of `xyzw` have the numbers 0 to 3. -/
inductive ComponentSelect where
  | none
  | mask (m : BitVec 8)
  | swizzle (lanes : Vector (BitVec 8) 4)
  | select1 (c : BitVec 8)
  deriving DecidableEq

structure Operand where
  opType : OperandType
  selection : ComponentSelect
  index0 : BitVec 32
  imm : Vector (BitVec 32) 4
  immLen : BitVec 8
  deriving DecidableEq

/-! ### The fields of an operand token -/

def numCompField (token : BitVec 32) : BitVec 8 :=
  (token &&& 0b11).setWidth 8

def selModeField (token : BitVec 32) : BitVec 8 :=
  (token >>> 2 &&& 0b11).setWidth 8

def selBitsField (token : BitVec 32) : BitVec 8 :=
  (token >>> 4 &&& 0xFF).setWidth 8

def opTypeField (token : BitVec 32) : BitVec 8 :=
  (token >>> 12 &&& 0xFF).setWidth 8

def indexDimField (token : BitVec 32) : BitVec 8 :=
  (token >>> 20 &&& 0b11).setWidth 8

def extendedField (token : BitVec 32) : Bool :=
  token &&& 0x80000000 != 0

/-- The selection, by the number of components and the mode. -/
def ComponentSelect.ofFields (numComp selMode selBits : BitVec 8) : ComponentSelect :=
  match numComp, selMode with
  | 0, _ => .none
  | 1, _ => .select1 (selBits &&& 0b11)
  | 2, 0 => .mask (selBits &&& 0x0F)
  | 2, 1 =>
    .swizzle #v[selBits &&& 0b11, selBits >>> 2 &&& 0b11, selBits >>> 4 &&& 0b11, selBits >>> 6 &&& 0b11]
  | 2, 2 => .select1 (selBits &&& 0b11)
  | _, _ => .none

/-- The number of words of an immediate. -/
def immCount (numComp : BitVec 8) : ℕ :=
  match numComp with
  | 1 => 1
  | 2 => 4
  | _ => 0

/-! ### Decoding -/

/-- `*tokens.get(next)?`, and the cursor behind it. -/
def readToken (tokens : List (BitVec 32)) (next : BitVec 64) :
    Checked Unit (BitVec 32 × BitVec 64) := do
  let token ← Checked.okOr tokens[next.toNat]? ()
  let next ← Checked.add next 1
  return (token, next)

/-- The loop over the first slots of `imm`: what it writes to them. -/
def readSlots (tokens : List (BitVec 32)) : ℕ → BitVec 64 → Checked Unit (List (BitVec 32) × BitVec 64)
  | 0, next => return ([], next)
  | n + 1, next => do
    let (slot, next) ← readToken tokens next
    let (slots, next) ← readSlots tokens n next
    return (slot :: slots, next)

/-- The loop over the index tokens that are not decoded. -/
def skipDims (tokens : List (BitVec 32)) : ℕ → BitVec 64 → Checked Unit (BitVec 64)
  | 0, next => return next
  | n + 1, next => do
    let next ← Checked.add next 1
    if tokens.length < next.toNat then Checked.fail ()
    else skipDims tokens n next

/-- `imm`, zero behind the slots that are written. -/
def immOfSlots (slots : List (BitVec 32)) : Vector (BitVec 32) 4 :=
  Vector.ofFn fun i => slots.getD i 0

/-- `decode_operand` from the selection on. -/
def decodeRest (tokens : List (BitVec 32)) (token : BitVec 32) (next : BitVec 64) :
    Checked Unit (Operand × BitVec 64) := do
  let numComp := numCompField token
  let indexDim := indexDimField token
  let selection := ComponentSelect.ofFields numComp (selModeField token) (selBitsField token)
  let opType := OperandType.fromRaw (opTypeField token)
  if opType = .immediate32 then
    let count := immCount numComp
    let (slots, next) ← readSlots tokens count next
    let imm := immOfSlots slots
    return ({ opType, selection, index0 := imm[0], imm, immLen := BitVec.ofNat 8 count }, next)
  else
    let (index0, next) ←
      if 1 ≤ indexDim.toNat then readToken tokens next
      else pure (0, next)
    let next ← skipDims tokens (indexDim.toNat - 1) next
    return ({ opType, selection, index0, imm := immOfSlots [], immLen := 0 }, next)

/-- `decode_operand`: the operand and the new cursor. -/
def decodeOperand (tokens : List (BitVec 32)) (cursor : BitVec 64) :
    Checked Unit (Operand × BitVec 64) := do
  let (token, next) ← readToken tokens cursor
  if extendedField token then
    let (_, next) ← readToken tokens next
    decodeRest tokens token next
  else decodeRest tokens token next

end Quantum.Kernel32.Dxbc
