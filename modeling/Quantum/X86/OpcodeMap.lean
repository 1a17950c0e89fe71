import Mathlib.Data.BitVec

/-!
# The x86 instruction format

What the architecture says about how an instruction is laid out: prefixes, the one-byte opcode map and the
`0F` map with the operands of every opcode, the ModRM byte with what follows it, and immediates.
`instructionLength` adds them up.  The maps cover 64-bit mode and 32-bit protected mode.  Instructions of
other maps (`0F 38`, `0F 3A`, VEX, EVEX and XOP) and undefined opcodes have no entry; near branches in
64-bit mode have 32-bit displacements whatever the operand size.
-/

namespace Quantum.X86

/-! ### Prefixes -/

/-- The segments with a base of their own; the others are flat. -/
inductive Segment where
  | fs | gs
  deriving Repr, DecidableEq

/-- What the bytes before the opcode say.  A REX byte counts only directly before the opcode; `strayRex`
says that another prefix follows one. -/
structure Header where
  osize : Bool
  asize : Bool
  repne : Bool
  repe : Bool
  seg : Option Segment
  rex : Option (BitVec 8)
  strayRex : Bool
  deriving Repr, DecidableEq

def Header.empty : Header :=
  ⟨false, false, false, false, none, none, false⟩

def Header.rexBit (h : Header) (i : Nat) : Bool :=
  match h.rex with
  | some b => b.getLsbD i
  | none => false

/-- The effect of a legacy prefix; in 32-bit mode any segment prefix replaces the one before it. -/
def Header.legacy (h : Header) (long : Bool) (b : Nat) : Option Header :=
  match b with
  | 0x66 => some { h with osize := true }
  | 0x67 => some { h with asize := true }
  | 0xF2 => some { h with repne := true }
  | 0xF3 => some { h with repe := true }
  | 0x64 => some { h with seg := some .fs }
  | 0x65 => some { h with seg := some .gs }
  | 0x26 | 0x2E | 0x36 | 0x3E => some (if long then h else { h with seg := none })
  | 0xF0 => some h
  | _ => none

def isRex (long : Bool) (b : BitVec 8) : Bool :=
  long && b.extractLsb' 4 4 == 4#4

/-- The prefixes, and the bytes from the opcode on. -/
def scanPrefixes (long : Bool) : Header → List (BitVec 8) → Option (Header × List (BitVec 8))
  | _, [] => none
  | h, b :: bs =>
    match h.legacy long b.toNat with
    | some h' => scanPrefixes long { h' with rex := none, strayRex := h.strayRex || h.rex.isSome } bs
    | none =>
      if isRex long b then
        scanPrefixes long { h with rex := some b, strayRex := h.strayRex || h.rex.isSome } bs
      else
        some (h, b :: bs)

/-! ### Opcodes -/

/-- How an opcode encodes an operand; `byte` marks byte operands. -/
inductive Arg where
  /-- A general register or memory, in the r/m field. -/
  | e (byte : Bool)
  /-- A general register, in the reg field. -/
  | g (byte : Bool)
  /-- A general register, in the low bits of the opcode. -/
  | z (byte : Bool)
  /-- The accumulator. -/
  | acc (byte : Bool)
  | cl
  | one
  /-- An XMM register, in the reg field. -/
  | v
  /-- An XMM register or memory, in the r/m field. -/
  | w
  /-- Operands of a ModRM byte that need not be told apart: segment and MMX registers, memory only, and
  the like. -/
  | other
  /-- Control and debug registers: the ModRM byte names registers whatever its mod field. -/
  | ctrl
  | ib | iw | iz | iv
  | jb | jz
  | moffs
  | far
  deriving Repr, DecidableEq

def modField (modrm : BitVec 8) : Nat := (modrm.extractLsb' 6 2).toNat
def regField (modrm : BitVec 8) : Nat := (modrm.extractLsb' 3 3).toNat
def rmField (modrm : BitVec 8) : Nat := (modrm.extractLsb' 0 3).toNat

/-- An entry that exists in 32-bit mode only. -/
def legacyOnly (long : Bool) (args : List Arg) : Option (List Arg) :=
  if long then none else some args

/-- The rows of the arithmetic block, 00 to 3F. -/
def arithArgs (long : Bool) (op : Nat) : Option (List Arg) :=
  match op % 8 with
  | 0 => some [.e true, .g true]
  | 1 => some [.e false, .g false]
  | 2 => some [.g true, .e true]
  | 3 => some [.g false, .e false]
  | 4 => some [.acc true, .ib]
  | 5 => some [.acc false, .iz]
  | _ => legacyOnly long []

/-- The rows 60 to 6F. -/
def args6 (long : Bool) (op : Nat) (modrm : BitVec 8) : Option (List Arg) :=
  match op with
  | 0x60 | 0x61 => legacyOnly long []
  | 0x62 => if modField modrm = 3 then none else legacyOnly long [.g false, .other]
  -- MOVSXD, and ARPL in 32-bit mode
  | 0x63 => some (if long then [.g false, .e false] else [.e false, .g false])
  | 0x68 => some [.iz]
  | 0x69 => some [.g false, .e false, .iz]
  | 0x6A => some [.ib]
  | 0x6B => some [.g false, .e false, .ib]
  | 0x6C | 0x6D | 0x6E | 0x6F => some []
  | _ => none

/-- The rows 80 to 8F. -/
def args8 (long : Bool) (op : Nat) (modrm : BitVec 8) : Option (List Arg) :=
  match op with
  | 0x80 => some [.e true, .ib]
  | 0x81 => some [.e false, .iz]
  | 0x82 => legacyOnly long [.e true, .ib]
  | 0x83 => some [.e false, .ib]
  | 0x84 | 0x86 | 0x88 => some [.e true, .g true]
  | 0x85 | 0x87 | 0x89 => some [.e false, .g false]
  | 0x8A => some [.g true, .e true]
  | 0x8B | 0x8D => some [.g false, .e false]
  | 0x8C | 0x8E => some [.other]
  | 0x8F => if regField modrm = 0 then some [.e false] else none
  | _ => none

/-- The rows 90 to BF. -/
def args9 (long : Bool) (op : Nat) : Option (List Arg) :=
  match op with
  | 0x91 | 0x92 | 0x93 | 0x94 | 0x95 | 0x96 | 0x97 => some [.acc false, .z false]
  | 0x9A => legacyOnly long [.far]
  | 0xA0 | 0xA1 | 0xA2 | 0xA3 => some [.moffs]
  | 0xA8 => some [.acc true, .ib]
  | 0xA9 => some [.acc false, .iz]
  | _ => if op < 0xB0 then some [] else if op < 0xB8 then some [.z true, .ib] else some [.z false, .iv]

/-- The rows C0 to DF. -/
def argsC (long : Bool) (op : Nat) (modrm : BitVec 8) : Option (List Arg) :=
  match op with
  | 0xC0 => some [.e true, .ib]
  | 0xC1 => some [.e false, .ib]
  | 0xC2 | 0xCA => some [.iw]
  | 0xC3 | 0xC9 | 0xCB | 0xCC | 0xCF | 0xD7 => some []
  | 0xC4 | 0xC5 => if modField modrm = 3 then none else legacyOnly long [.other]
  | 0xC6 =>
    if regField modrm = 0 then some [.e true, .ib]
    else if modrm = 0xF8 then some [.ctrl, .ib] else none
  | 0xC7 =>
    if regField modrm = 0 then some [.e false, .iz]
    else if modrm = 0xF8 then some [.ctrl, .iz] else none
  | 0xC8 => some [.iw, .ib]
  | 0xCD => some [.ib]
  | 0xCE => legacyOnly long []
  | 0xD0 => some [.e true, .one]
  | 0xD1 => some [.e false, .one]
  | 0xD2 => some [.e true, .cl]
  | 0xD3 => some [.e false, .cl]
  | 0xD4 | 0xD5 => legacyOnly long [.ib]
  | 0xD8 | 0xD9 | 0xDA | 0xDB | 0xDC | 0xDD | 0xDE | 0xDF => some [.other]
  | _ => none

/-- The rows E0 to FF. -/
def argsE (long : Bool) (op : Nat) (modrm : BitVec 8) : Option (List Arg) :=
  match op with
  | 0xE0 | 0xE1 | 0xE2 | 0xE3 | 0xEB => some [.jb]
  | 0xE4 | 0xE5 | 0xE6 | 0xE7 => some [.ib]
  | 0xE8 | 0xE9 => some [.jz]
  | 0xEA => legacyOnly long [.far]
  | 0xF6 => some (if regField modrm ≤ 1 then [.e true, .ib] else [.e true])
  | 0xF7 => some (if regField modrm ≤ 1 then [.e false, .iz] else [.e false])
  | 0xFE => if regField modrm ≤ 1 then some [.e true] else none
  | 0xFF => if regField modrm ≤ 6 then some [.e false] else none
  | _ => some []

/-- The one-byte opcodes. -/
def primaryMap (long : Bool) (op : Nat) (modrm : BitVec 8) : Option (List Arg) :=
  if op < 0x40 then arithArgs long op
  else if op < 0x50 then legacyOnly long [.z false]
  else if op < 0x60 then some [.z false]
  else if op < 0x70 then args6 long op modrm
  else if op < 0x80 then some [.jb]
  else if op < 0x90 then args8 long op modrm
  else if op < 0xC0 then args9 long op
  else if op < 0xE0 then argsC long op modrm
  else argsE long op modrm

/-- The `0F` rows 00 to 3F; `rep` says that `F2` or `F3` is present. -/
def args0F0 (rep : Bool) (op : Nat) (modrm : BitVec 8) : Option (List Arg) :=
  match op with
  | 0x00 => if regField modrm ≤ 5 then some [.other] else none
  | 0x01 | 0x02 | 0x03 | 0x0D => some [.other]
  | 0x05 | 0x06 | 0x07 | 0x08 | 0x09 | 0x0B => some []
  | 0x10 | 0x28 => some [.v, .w]
  | 0x11 | 0x29 => some [.w, .v]
  | 0x12 | 0x13 | 0x14 | 0x15 | 0x16 | 0x17 | 0x18 | 0x19 | 0x1A | 0x1B | 0x1C | 0x1D | 0x1E | 0x1F =>
    some [.other]
  | 0x20 | 0x21 | 0x22 | 0x23 => some [.ctrl]
  | 0x2A => some (if rep then [.v, .e false] else [.other])
  | 0x2B => some [.other]
  | 0x2C | 0x2D => some (if rep then [.g false, .w] else [.other])
  | 0x2E | 0x2F => some [.v, .w]
  | 0x30 | 0x31 | 0x32 | 0x33 | 0x34 | 0x35 | 0x37 => some []
  | _ => none

/-- The `0F` rows 50 to 7F.  Without a prefix these are MMX operations. -/
def args0F5 (osize repne repe : Bool) (op : Nat) (modrm : BitVec 8) : Option (List Arg) :=
  match op with
  | 0x50 | 0x78 | 0x79 | 0x7C | 0x7D => some [.other]
  | 0x6E => some (if osize then [.v, .e false] else [.other])
  | 0x6F => some (if osize || repe then [.v, .w] else [.other])
  | 0x70 => some (if osize || repne || repe then [.v, .w, .ib] else [.other, .ib])
  | 0x71 | 0x72 | 0x73 =>
    if modField modrm = 3 then some (if osize then [.w, .ib] else [.other, .ib]) else none
  | 0x77 => some []
  | 0x7A | 0x7B => none
  | 0x7E => some (if repe then [.v, .w] else if osize then [.e false, .v] else [.other])
  | 0x7F => some (if osize || repe then [.w, .v] else [.other])
  | _ => some (if op < 0x60 || osize then [.v, .w] else [.other])

/-- The `0F` rows A0 to CF. -/
def args0FA (repe : Bool) (op : Nat) (modrm : BitVec 8) : Option (List Arg) :=
  match op with
  | 0xA0 | 0xA1 | 0xA2 | 0xA8 | 0xA9 | 0xAA => some []
  | 0xA3 | 0xAB | 0xB1 | 0xB3 | 0xBB | 0xC1 => some [.e false, .g false]
  | 0xA4 | 0xAC => some [.e false, .g false, .ib]
  | 0xA5 | 0xAD => some [.e false, .g false, .cl]
  | 0xAE | 0xB2 | 0xB4 | 0xB5 | 0xB9 | 0xC3 | 0xC7 => some [.other]
  | 0xAF | 0xB7 | 0xBC | 0xBD | 0xBF => some [.g false, .e false]
  | 0xB0 | 0xC0 => some [.e true, .g true]
  | 0xB6 | 0xBE => some [.g false, .e true]
  | 0xB8 => if repe then some [.g false, .e false] else none
  | 0xBA => if 4 ≤ regField modrm then some [.e false, .ib] else none
  | 0xC2 => some [.v, .w, .ib]
  | 0xC4 | 0xC5 | 0xC6 => some [.other, .ib]
  | 0xA6 | 0xA7 => none
  | _ => some [.z false]

/-- The `0F` rows D0 to FF. -/
def args0FD (osize : Bool) (op : Nat) (modrm : BitVec 8) : Option (List Arg) :=
  match op with
  | 0xD7 => if modField modrm = 3 then some (if osize then [.g false, .w] else [.other]) else none
  | 0xFF => none
  | 0xD6 | 0xE7 => some (if osize then [.w, .v] else [.other])
  | _ => some (if osize then [.v, .w] else [.other])

/-- The opcodes after `0F`. -/
def secondaryMap (h : Header) (op : Nat) (modrm : BitVec 8) : Option (List Arg) :=
  if op < 0x40 then args0F0 (h.repne || h.repe) op modrm
  else if op < 0x50 then some [.g false, .e false]
  else if op < 0x80 then args0F5 h.osize h.repne h.repe op modrm
  else if op < 0x90 then some [.jz]
  else if op < 0xA0 then some [.e true]
  else if op < 0xD0 then args0FA h.repe op modrm
  else args0FD h.osize op modrm

/-! ### Lengths -/

/-- Does the operand name a general or XMM register, or memory that may stand in for one? -/
def Arg.isNamed : Arg → Bool
  | .e _ | .g _ | .z _ | .acc _ | .cl | .v | .w => true
  | _ => false

/-- Does the operand come with a ModRM byte that may have a memory form? -/
def Arg.usesModrm : Arg → Bool
  | .e _ | .g _ | .v | .w | .other => true
  | _ => false

/-- The immediate of two or four bytes that goes with the operand size. -/
def immZ (h : Header) : Nat :=
  if h.osize && !h.rexBit 3 then 2 else 4

/-- The bytes of the operand that are not part of the ModRM form. -/
def Arg.immBytes (long : Bool) (h : Header) : Arg → Nat
  | .ib | .jb => 1
  | .iw => 2
  | .iz => immZ h
  | .iv => if h.rexBit 3 then 8 else if h.osize then 2 else 4
  | .jz => if long then 4 else immZ h
  | .moffs => if long then (if h.asize then 4 else 8) else if h.asize then 2 else 4
  | .far => immZ h + 2
  | .ctrl => 1
  | _ => 0

/-- The ModRM byte and what follows it, with 32- and 64-bit addresses. -/
def modrmBytes32 (modrm sib : BitVec 8) : Nat :=
  match modField modrm with
  | 3 => 1
  | 0 =>
    if rmField modrm = 5 then 5
    else if rmField modrm = 4 then (if (sib.extractLsb' 0 3).toNat = 5 then 6 else 2)
    else 1
  | 1 => if rmField modrm = 4 then 3 else 2
  | _ => if rmField modrm = 4 then 6 else 5

/-- The ModRM byte and what follows it, with 16-bit addresses. -/
def modrmBytes16 (modrm : BitVec 8) : Nat :=
  match modField modrm with
  | 3 => 1
  | 0 => if rmField modrm = 6 then 3 else 1
  | 1 => 2
  | _ => 3

/-- The bytes after the opcode. -/
def argsLength (long : Bool) (h : Header) (args : List Arg) (modrm sib : BitVec 8) : Nat :=
  (if args.any Arg.usesModrm then
    (if !long && h.asize then modrmBytes16 modrm else modrmBytes32 modrm sib) else 0)
    + (args.map (Arg.immBytes long h)).sum

/-- The opcode with its operands, and the bytes after it. -/
def scanOpcode (long : Bool) (h : Header) : List (BitVec 8) →
    Option (Nat × List Arg × List (BitVec 8))
  | [] => none
  | b :: bs =>
    if b = 0x0F then
      match bs with
      | [] => none
      | c :: bs => (secondaryMap h c.toNat (bs.headD 0)).map fun args => (2, args, bs)
    else
      (primaryMap long b.toNat (bs.headD 0)).map fun args => (1, args, bs)

/-- The length of the instruction that the bytes begin with, if they begin with one: all its bytes are
there, and there are at most 15 of them. -/
def instructionLength (long : Bool) (bs : List (BitVec 8)) : Option Nat := do
  let (h, code) ← scanPrefixes long .empty bs
  let (opcodeLen, args, rest) ← scanOpcode long h code
  let n := bs.length - code.length + opcodeLen
    + argsLength long h args (rest.headD 0) ((rest.drop 1).headD 0)
  if n ≤ bs.length ∧ n ≤ 15 then some n else none

end Quantum.X86
