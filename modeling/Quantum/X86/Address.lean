import Mathlib.Data.Nat.Digits.Defs
import Quantum.X86.OpcodeMap

/-!
# Memory operands of the architecture

What a ModRM byte with a mod field other than 3 stands for, with 32- and 64-bit addresses: whether a
SIB byte follows it, how many bytes of displacement, and which registers, scale and displacement make
up the address.  Registers are given by their numbers, 0 to 15.
-/

namespace Quantum.X86

/-- The parts of an address. -/
structure Address where
  base : Option Nat
  index : Option Nat
  scale : Nat
  disp : Int
  ripRelative : Bool
  deriving Repr, DecidableEq

/-- The scale, index and base fields of a SIB byte. -/
def sibScaleField (sib : BitVec 8) : Nat := (sib.extractLsb' 6 2).toNat
def sibIndexField (sib : BitVec 8) : Nat := (sib.extractLsb' 3 3).toNat
def sibBaseField (sib : BitVec 8) : Nat := (sib.extractLsb' 0 3).toNat

/-- A register number: a field of three bits and its bit of the REX prefix. -/
def regNumber (rex : Bool) (field : Nat) : Nat :=
  (if rex then 8 else 0) + field

/-- The SIB byte of an encoding, which follows `rm` 100. -/
def sibBytes (modrm sib : BitVec 8) : List (BitVec 8) :=
  if rmField modrm = 4 then [sib] else []

/-- The length of the displacement. -/
def dispBytes (modrm sib : BitVec 8) : Nat :=
  match modField modrm with
  | 0 => if rmField modrm = 5 ∨ rmField modrm = 4 ∧ sibBaseField sib = 5 then 4 else 0
  | 1 => 1
  | _ => 4

/-- The signed value of a little-endian displacement. -/
def signedLe (d : List (BitVec 8)) : Int :=
  Int.bmod (Nat.ofDigits 256 (d.map BitVec.toNat) : Nat) (2 ^ (8 * d.length))

/-- The base that a SIB byte names: none for base 101 after mod 00. -/
def sibBase (rexB : Bool) (modrm sib : BitVec 8) : Option Nat :=
  if modField modrm = 0 ∧ sibBaseField sib = 5 then none
  else some (regNumber rexB (sibBaseField sib))

/-- The index that a SIB byte names: none for the number of RSP, which is index 100 without REX.X. -/
def sibIndex (rexX : Bool) (sib : BitVec 8) : Option Nat :=
  if regNumber rexX (sibIndexField sib) = 4 then none
  else some (regNumber rexX (sibIndexField sib))

/-- The address of an encoding: mod 00 with `rm` 101 is relative to RIP in long mode and absolute in
legacy mode. -/
def address (long rexX rexB : Bool) (modrm sib : BitVec 8) (d : List (BitVec 8)) : Address :=
  if modField modrm = 0 ∧ rmField modrm = 5 then ⟨none, none, 1, signedLe d, long⟩
  else if rmField modrm = 4 then
    ⟨sibBase rexB modrm sib, sibIndex rexX sib, 2 ^ sibScaleField sib, signedLe d, false⟩
  else ⟨some (regNumber rexB (rmField modrm)), none, 1, signedLe d, false⟩

end Quantum.X86
