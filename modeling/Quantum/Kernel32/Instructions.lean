import Mathlib.Data.Nat.Notation

/-!
# Shader instructions

`InstructionIter`: the records of a token stream, each with its length in its first token.  A slice is far
shorter than `2 ^ 64`, so the sum of the cursor and a length does not overflow.
-/

namespace Quantum.Kernel32.Dxbc

structure Instruction where
  opcode : BitVec 16
  control : BitVec 16
  extended : Bool
  tokens : List (BitVec 32)
  deriving DecidableEq

inductive DecodeError where
  | headerTooShort
  | lengthMismatch (declared : BitVec 32) (actual : ℕ)
  | instructionOob (wordOffset : ℕ) (length : BitVec 32)
  | zeroLengthOpcode (wordOffset : ℕ)
  deriving DecidableEq

structure InstructionIter where
  body : List (BitVec 32)
  cursor : ℕ

/-- The length of a record, in tokens, by its first token. -/
def lengthField (header : BitVec 32) : BitVec 32 :=
  header >>> 24 &&& 0x7F

namespace InstructionIter

/-- `InstructionIter::new` skips the header of two tokens. -/
def new (tokens : List (BitVec 32)) : InstructionIter :=
  ⟨tokens, min tokens.length 2⟩

/-- `next`: the item and the iterator after it. -/
def next (it : InstructionIter) : Option (Except DecodeError Instruction) × InstructionIter :=
  match it.body[it.cursor]? with
  | none => (none, it)
  | some header =>
    let length := lengthField header
    if length = 0 then (some (.error (.zeroLengthOpcode it.cursor)), it)
    else
      let stop := it.cursor + length.toNat
      if stop ≤ it.body.length then
        (some (.ok {
          opcode := (header &&& 0x07FF).setWidth 16
          control := (header >>> 11 &&& 0x1FFF).setWidth 16
          extended := header &&& 0x80000000 != 0
          tokens := (it.body.drop it.cursor).take length.toNat }),
          { it with cursor := stop })
      else (some (.error (.instructionOob it.cursor length)), it)

/-- The items up to the end; `none` if it does not come within `fuel` items. -/
def items : ℕ → InstructionIter → Option (List (Except DecodeError Instruction))
  | 0, _ => none
  | fuel + 1, it =>
    match it.next with
    | (none, _) => some []
    | (some item, it) => (items fuel it).map (item :: ·)

end InstructionIter

end Quantum.Kernel32.Dxbc
