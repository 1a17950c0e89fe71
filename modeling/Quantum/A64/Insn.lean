import Quantum.Lib.BitField

/-!
# A64 instructions

The instructions of the host, as far as the emitter can produce them, and the decoder that reads
an instruction word (`decode`).  Field names follow the Armv8-A encoding tables; register number
31 is the zero register or the stack pointer, by the instruction that uses it.

`decode` answers `none` for a word that is not allocated and for a word outside the encodings the
emitter writes.  Two classes are wider than what a correct call of the emitter needs: loads and
stores with an unsigned offset (`ldst`), where every size and opcode is read, and the scalar SIMD
words with top byte `0x7F` (`simdScalar`), because an offset that does not fit its field turns one
load or store into another of these.
-/

namespace Quantum.A64

/-- An instruction word. -/
abbrev Word := BitVec 32

/-- A register number. -/
abbrev Reg := BitVec 5

/-- The condition codes, in the order of their encodings. -/
inductive Cond where
  | eq | ne | cs | cc | mi | pl | vs | vc | hi | ls | ge | lt | gt | le | al | nv
  deriving Repr, DecidableEq

/-- The four-bit code of a condition. -/
def Cond.code : Cond → BitVec 4
  | .eq => 0 | .ne => 1 | .cs => 2 | .cc => 3 | .mi => 4 | .pl => 5 | .vs => 6 | .vc => 7
  | .hi => 8 | .ls => 9 | .ge => 10 | .lt => 11 | .gt => 12 | .le => 13 | .al => 14 | .nv => 15

/-- The condition of a four-bit code. -/
def Cond.ofCode (c : BitVec 4) : Cond :=
  match c.toNat with
  | 0 => .eq | 1 => .ne | 2 => .cs | 3 => .cc | 4 => .mi | 5 => .pl | 6 => .vs | 7 => .vc
  | 8 => .hi | 9 => .ls | 10 => .ge | 11 => .lt | 12 => .gt | 13 => .le | 14 => .al | _ => .nv

@[simp]
theorem Cond.ofCode_code (c : Cond) : Cond.ofCode c.code = c := by
  cases c <;> rfl

/-- Move-wide opcodes. -/
inductive MovOp where
  | movn | movz | movk
  deriving Repr, DecidableEq

/-- Logical opcodes (shifted register). -/
inductive LogicOp where
  | and | orr | eor | ands | orn
  deriving Repr, DecidableEq

/-- Two-source data-processing opcodes. -/
inductive Dp2Op where
  | udiv | sdiv | lslv | lsrv | asrv | rorv
  deriving Repr, DecidableEq

/-- One-source data-processing opcodes. -/
inductive Dp1Op where
  | rbit | clz | rev64 | rev32
  deriving Repr, DecidableEq

/-- Three-source data-processing opcodes. -/
inductive Dp3Op where
  | madd | msub | umulh | smulh
  deriving Repr, DecidableEq

/-- Conditional-select opcodes. -/
inductive CselOp where
  | csel | csinc | csinv | csneg
  deriving Repr, DecidableEq

/-- Addressing mode of a load/store pair. -/
inductive PairMode where
  | preIndex | postIndex | offset
  deriving Repr, DecidableEq

/-- Integer SIMD operations on two vectors.  The number is the lane width in bits. -/
inductive VecOp where
  | eor | and | orr
  | add (lane : Nat) | sub (lane : Nat) | cmeq (lane : Nat) | mul (lane : Nat)
  | zip1 (lane : Nat) | zip2 (lane : Nat)
  | ext (index : Nat)
  deriving Repr, DecidableEq

/-- SIMD shifts by an immediate; `immhb` is the seven-bit field `immh:immb`. -/
inductive VecShift where
  | shl | ushr | sshr
  deriving Repr, DecidableEq

/-- A decoded instruction. -/
inductive Insn where
  | movWide (is64 : Bool) (op : MovOp) (hw : BitVec 2) (imm16 : BitVec 16) (rd : Reg)
  | addSubImm (sub setFlags sh : Bool) (imm12 : BitVec 12) (rn rd : Reg)
  | addSubShift (sub setFlags : Bool) (rm : Reg) (lsl : BitVec 6) (rn rd : Reg)
  | addSubCarry (sub : Bool) (rm rn rd : Reg)
  | logicShift (op : LogicOp) (rm : Reg) (lsl : BitVec 6) (rn rd : Reg)
  | andImm (imms : BitVec 6) (rn rd : Reg)
  | sbfm (immr imms : BitVec 6) (rn rd : Reg)
  | ubfm (immr imms : BitVec 6) (rn rd : Reg)
  | bfm32 (immr imms : BitVec 5) (rn rd : Reg)
  | dp1 (op : Dp1Op) (rn rd : Reg)
  | dp2 (op : Dp2Op) (rm rn rd : Reg)
  | dp3 (op : Dp3Op) (rm ra rn rd : Reg)
  | csel (op : CselOp) (rm : Reg) (cond : Cond) (rn rd : Reg)
  | ldst (size : BitVec 2) (v : Bool) (opc : BitVec 2) (imm12 : BitVec 12) (rn rt : Reg)
  | ldstPair (load : Bool) (mode : PairMode) (imm7 : BitVec 7) (rt2 rn rt : Reg)
  | b (link : Bool) (imm26 : BitVec 26)
  | bCond (cond : Cond) (imm19 : BitVec 19)
  | cbz (nonzero : Bool) (imm19 : BitVec 19) (rt : Reg)
  | tbz (nonzero : Bool) (bit : BitVec 6) (imm14 : BitVec 14) (rt : Reg)
  | br (rn : Reg)
  | blr (rn : Reg)
  | ret (rn : Reg)
  | hint
  | brk (imm16 : BitVec 16)
  | mrsNzcv (rt : Reg)
  | msrNzcv (rt : Reg)
  | mrsTpidr (rt : Reg)
  | mrsCntvct (rt : Reg)
  | vec (op : VecOp) (vm vn vd : Reg)
  | vecShift (op : VecShift) (immhb : BitVec 7) (vn vd : Reg)
  | insS (dst src : BitVec 2) (vn vd : Reg)
  | insD (lane : Bool) (rn vd : Reg)
  | addvB (vn vd : Reg)
  | umovB (lane : BitVec 4) (vn rd : Reg)
  | fp2 (op : Word) (vm vn vd : Reg)
  | fp1 (op : Word) (vn vd : Reg)
  | fpToInt (is64 : Bool) (op : Word) (vn rd : Reg)
  | intToFp (is64 : Bool) (op : Word) (rn vd : Reg)
  | fcmp (op : Word) (vm vn : Reg)
  | simdScalar (w : Word)
  deriving Repr, DecidableEq

/-! ### Fields of a word -/

namespace Word

/-- Bits `[lsb + n - 1 : lsb]` of an instruction word. -/
def field (w : Word) (lsb n : Nat) : BitVec n :=
  w.extractLsb' lsb n

/-- Bit `i` of an instruction word. -/
def bit (w : Word) (i : Nat) : Bool :=
  field w i 1 == 1#1

def rd (w : Word) : Reg := field w 0 5
def rn (w : Word) : Reg := field w 5 5
def rm (w : Word) : Reg := field w 16 5
def ra (w : Word) : Reg := field w 10 5

end Word

open Word

/-! ### Decoding -/

/-- Logical opcode of the bits `opc` and `N` of a shifted-register word. -/
def decodeLogicOp (opc : BitVec 2) (n : Bool) : Option LogicOp :=
  match opc.toNat, n with
  | 0, false => some .and
  | 1, false => some .orr
  | 2, false => some .eor
  | 3, false => some .ands
  | 1, true => some .orn
  | _, _ => none

/-- Logical (shifted register), 64-bit; only `LSL` shifts are read. -/
def decodeLogicShift (w : Word) : Option Insn :=
  if field w 22 2 = 0 then
    (decodeLogicOp (field w 29 2) (bit w 21)).map fun op =>
      .logicShift op (rm w) (field w 10 6) (rn w) (rd w)
  else none

/-- Add/subtract (shifted register), 64-bit; only `LSL` shifts are read. -/
def decodeAddSubShift (w : Word) : Option Insn :=
  if field w 21 3 = 0 then
    some (.addSubShift (bit w 30) (bit w 29) (rm w) (field w 10 6) (rn w) (rd w))
  else none

/-- Add/subtract (immediate), 64-bit. -/
def decodeAddSubImm (w : Word) : Option Insn :=
  if bit w 23 then none
  else some (.addSubImm (bit w 30) (bit w 29) (bit w 22) (field w 10 12) (rn w) (rd w))

/-- Move wide. -/
def decodeMovWide (w : Word) : Option Insn :=
  if bit w 23 && (bit w 31 || !bit w 22) then
    match (field w 29 2).toNat with
    | 0 => some (.movWide (bit w 31) .movn (field w 21 2) (field w 5 16) (rd w))
    | 2 => some (.movWide (bit w 31) .movz (field w 21 2) (field w 5 16) (rd w))
    | 3 => some (.movWide (bit w 31) .movk (field w 21 2) (field w 5 16) (rd w))
    | _ => none
  else none

/-- Top byte `0x92`: `AND` (immediate) of the low bits, or `MOVN`. -/
def decodeAndImm (w : Word) : Option Insn :=
  if bit w 23 then decodeMovWide w
  else if field w 16 7 = 0x40#7 && field w 10 6 != 63#6 then
    some (.andImm (field w 10 6) (rn w) (rd w))
  else none

/-- Data processing, two sources, 64-bit. -/
def decodeDp2 (w : Word) : Option Insn :=
  match (field w 10 6).toNat with
  | 2 => some (.dp2 .udiv (rm w) (rn w) (rd w))
  | 3 => some (.dp2 .sdiv (rm w) (rn w) (rd w))
  | 8 => some (.dp2 .lslv (rm w) (rn w) (rd w))
  | 9 => some (.dp2 .lsrv (rm w) (rn w) (rd w))
  | 10 => some (.dp2 .asrv (rm w) (rn w) (rd w))
  | 11 => some (.dp2 .rorv (rm w) (rn w) (rd w))
  | _ => none

/-- Data processing, one source. -/
def decodeDp1 (w : Word) : Option Insn :=
  if field w 16 8 = 0xC0#8 then
    match bit w 31, (field w 10 6).toNat with
    | true, 0 => some (.dp1 .rbit (rn w) (rd w))
    | true, 3 => some (.dp1 .rev64 (rn w) (rd w))
    | true, 4 => some (.dp1 .clz (rn w) (rd w))
    | false, 2 => some (.dp1 .rev32 (rn w) (rd w))
    | _, _ => none
  else none

/-- Data processing, three sources, 64-bit. -/
def decodeDp3 (w : Word) : Option Insn :=
  match (field w 21 3).toNat, bit w 15 with
  | 0, false => some (.dp3 .madd (rm w) (ra w) (rn w) (rd w))
  | 0, true => some (.dp3 .msub (rm w) (ra w) (rn w) (rd w))
  | 2, false => some (.dp3 .smulh (rm w) (ra w) (rn w) (rd w))
  | 6, false => some (.dp3 .umulh (rm w) (ra w) (rn w) (rd w))
  | _, _ => none

/-- Conditional select, 64-bit. -/
def decodeCsel (w : Word) : Option Insn :=
  match bit w 30, (field w 10 2).toNat with
  | false, 0 => some (.csel .csel (rm w) (.ofCode (field w 12 4)) (rn w) (rd w))
  | false, 1 => some (.csel .csinc (rm w) (.ofCode (field w 12 4)) (rn w) (rd w))
  | true, 0 => some (.csel .csinv (rm w) (.ofCode (field w 12 4)) (rn w) (rd w))
  | true, 1 => some (.csel .csneg (rm w) (.ofCode (field w 12 4)) (rn w) (rd w))
  | _, _ => none

/-- Top byte `0x9A`. -/
def decodeCselDp2 (w : Word) : Option Insn :=
  match (field w 21 3).toNat with
  | 4 => decodeCsel w
  | 6 => decodeDp2 w
  | _ => none

/-- Top byte `0xDA`. -/
def decodeCselDp1 (w : Word) : Option Insn :=
  match (field w 21 3).toNat with
  | 4 => decodeCsel w
  | 6 => decodeDp1 w
  | _ => none

/-- `SBFM`, 64-bit. -/
def decodeSbfm (w : Word) : Option Insn :=
  if field w 22 2 = 1#2 then some (.sbfm (field w 16 6) (field w 10 6) (rn w) (rd w)) else none

/-- `UBFM`, 64-bit. -/
def decodeUbfm (w : Word) : Option Insn :=
  if field w 22 2 = 1#2 then some (.ubfm (field w 16 6) (field w 10 6) (rn w) (rd w)) else none

/-- `BFM`, 32-bit. -/
def decodeBfm32 (w : Word) : Option Insn :=
  if field w 21 3 = 0#3 && !bit w 15 then
    some (.bfm32 (field w 16 5) (field w 10 5) (rn w) (rd w))
  else none

/-- Add/subtract with carry, 64-bit, flag setting. -/
def decodeAddSubCarry (w : Word) : Option Insn :=
  if field w 21 3 = 0 && field w 10 6 = 0 then
    some (.addSubCarry (bit w 30) (rm w) (rn w) (rd w))
  else none

/-- Load/store pair of 64-bit registers. -/
def decodeLdstPair (w : Word) : Option Insn :=
  match (field w 23 3).toNat with
  | 1 => some (.ldstPair (bit w 22) .postIndex (field w 15 7) (ra w) (rn w) (rd w))
  | 2 => some (.ldstPair (bit w 22) .offset (field w 15 7) (ra w) (rn w) (rd w))
  | 3 => some (.ldstPair (bit w 22) .preIndex (field w 15 7) (ra w) (rn w) (rd w))
  | _ => none

/-- Load/store (unsigned offset): every size, register class and opcode. -/
def decodeLdst (w : Word) : Option Insn :=
  some (.ldst (field w 30 2) (bit w 26) (field w 22 2) (field w 10 12) (rn w) (rd w))

/-- Unconditional branch (register). -/
def decodeBranchReg (w : Word) : Option Insn :=
  if field w 10 14 = 0x07C0#14 && rd w = 0 then some (.br (rn w))
  else if field w 10 14 = 0x0FC0#14 && rd w = 0 then some (.blr (rn w))
  else if field w 10 14 = 0x17C0#14 && rd w = 0 then some (.ret (rn w))
  else none

/-- Conditional branch. -/
def decodeBCond (w : Word) : Option Insn :=
  if bit w 4 then none else some (.bCond (.ofCode (field w 0 4)) (field w 5 19))

/-- Breakpoint. -/
def decodeBrk (w : Word) : Option Insn :=
  if field w 21 3 = 1#3 && rd w = 0 then some (.brk (field w 5 16)) else none

/-- Hints, barriers and system-register moves. -/
def decodeSystem (w : Word) : Option Insn :=
  match (field w 5 19).toNat with
  | 0x01900 => if rd w = 31 then some .hint else none
  | 0x01986 => if rd w = 31 then some .hint else none
  | 0x019DD => if rd w = 31 then some .hint else none
  | 0x1DA10 => some (.mrsNzcv (rd w))
  | 0x0DA10 => some (.msrNzcv (rd w))
  | 0x1DE82 => some (.mrsTpidr (rd w))
  | 0x1DF02 => some (.mrsCntvct (rd w))
  | _ => none

/-- The opcode bits of a word with three register operands. -/
def opcode3 (w : Word) : BitVec 11 × BitVec 6 :=
  (field w 21 11, field w 10 6)

/-- The opcode bits of a word with two register operands. -/
def opcode2 (w : Word) : BitVec 22 :=
  field w 10 22

/-- Integer operations on two vectors, by their opcode bits. -/
def vecTable : List (Word × VecOp) :=
  [(0x6E201C00, .eor), (0x4E201C00, .and), (0x4EA01C00, .orr),
   (0x4EE08400, .add 64), (0x4EA08400, .add 32), (0x4E608400, .add 16), (0x4E208400, .add 8),
   (0x6EE08400, .sub 64), (0x6EA08400, .sub 32), (0x6E608400, .sub 16), (0x6E208400, .sub 8),
   (0x6EE08C00, .cmeq 64), (0x6EA08C00, .cmeq 32), (0x6E608C00, .cmeq 16), (0x6E208C00, .cmeq 8),
   (0x4E609C00, .mul 16),
   (0x4E003800, .zip1 8), (0x4E403800, .zip1 16), (0x4E803800, .zip1 32), (0x4EC03800, .zip1 64),
   (0x4E007800, .zip2 8), (0x4E407800, .zip2 16), (0x4E807800, .zip2 32), (0x4EC07800, .zip2 64)]

/-- Packed floating-point operations on two vectors. -/
def fpVecTable : List Word :=
  [0x4E20D400, 0x4E60D400, 0x4EA0D400, 0x4EE0D400, 0x6E20DC00, 0x6E60DC00, 0x6E20FC00, 0x6E60FC00]

/-- Scalar floating-point operations on two registers. -/
def fp2Table : List Word :=
  [0x1E202800, 0x1E203800, 0x1E200800, 0x1E201800, 0x1E204800, 0x1E205800,
   0x1E602800, 0x1E603800, 0x1E600800, 0x1E601800, 0x1E604800, 0x1E605800]

/-- Scalar floating-point compares. -/
def fcmpTable : List Word :=
  [0x1E202000, 0x1E602000]

/-- Scalar floating-point operations on one register. -/
def fp1Table : List Word :=
  [0x1E22C000, 0x1E624000, 0x1E21C000, 0x1E61C000]

/-- Conversions from integer. -/
def intToFpTable : List Word :=
  [0x1E220000, 0x1E620000, 0x9E220000, 0x9E620000]

/-- Conversions to integer. -/
def fpToIntTable : List Word :=
  [0x1E380000, 0x1E780000, 0x1E200000, 0x1E600000, 0x9E380000, 0x9E780000, 0x9E200000, 0x9E600000]

/-- SIMD on two vectors, by the opcode bits of the word. -/
def decodeVecOp (w : Word) : Option Insn :=
  match vecTable.find? (fun e => opcode3 e.1 == opcode3 w) with
  | some e => some (.vec e.2 (rm w) (rn w) (rd w))
  | none =>
    (fpVecTable.find? (fun b => opcode3 b == opcode3 w)).map fun b =>
      .fp2 b (rm w) (rn w) (rd w)

/-- SIMD (top bytes `0x0E`, `0x4E`, `0x6E`): `EXT`, the copies between lanes and general registers,
`ADDV`, and the operations on two vectors. -/
def decodeVec (w : Word) : Option Insn :=
  if field w 21 11 = 0x370#11 && !bit w 15 && !bit w 10 then
    some (.vec (.ext (field w 11 4).toNat) (rm w) (rn w) (rd w))
  else if field w 21 11 = 0x370#11 && !bit w 15 && field w 16 3 = 4#3 && field w 10 3 = 1#3 then
    some (.insS (field w 19 2) (field w 13 2) (rn w) (rd w))
  else if field w 21 11 = 0x270#11 && field w 10 6 = 7#6 && field w 16 4 = 8#4 then
    some (.insD (bit w 20) (rn w) (rd w))
  else if field w 21 11 = 0x071#11 && field w 10 11 = 0x46E#11 then some (.addvB (rn w) (rd w))
  else if field w 21 11 = 0x070#11 && field w 10 6 = 15#6 && bit w 16 then
    some (.umovB (field w 17 4) (rn w) (rd w))
  else decodeVecOp w

/-- SIMD shift by an immediate. -/
def decodeVecShift (w : Word) : Option Insn :=
  if bit w 23 || field w 19 4 = 0#4 then none
  else
    match bit w 29, (field w 10 6).toNat with
    | false, 0x15 => some (.vecShift .shl (field w 16 7) (rn w) (rd w))
    | true, 1 => some (.vecShift .ushr (field w 16 7) (rn w) (rd w))
    | false, 1 => some (.vecShift .sshr (field w 16 7) (rn w) (rd w))
    | _, _ => none

/-- Scalar floating point: two sources, compare, conversions, one source. -/
def decodeFp (w : Word) : Option Insn :=
  if let some b := fp2Table.find? (fun b => opcode3 b == opcode3 w) then
    some (.fp2 b (rm w) (rn w) (rd w))
  else if let some b := fcmpTable.find? (fun b => opcode3 b == opcode3 w) then
    if rd w = 0 then some (.fcmp b (rm w) (rn w)) else none
  else if let some b := intToFpTable.find? (fun b => opcode2 b == opcode2 w) then
    some (.intToFp (bit w 31) b (rn w) (rd w))
  else if let some b := fpToIntTable.find? (fun b => opcode2 b == opcode2 w) then
    some (.fpToInt (bit w 31) b (rn w) (rd w))
  else
    (fp1Table.find? (fun b => opcode2 b == opcode2 w)).map fun b => .fp1 b (rn w) (rd w)

/-- The instruction of a word with the given top byte. -/
def decodeTop (top : Nat) (w : Word) : Option Insn :=
  match top with
  | 0xD2 | 0x52 | 0xF2 | 0x72 => decodeMovWide w
  | 0x92 => decodeAndImm w
  | 0x91 | 0xB1 | 0xD1 | 0xF1 => decodeAddSubImm w
  | 0x8B | 0xAB | 0xCB | 0xEB => decodeAddSubShift w
  | 0x8A | 0xAA | 0xCA | 0xEA => decodeLogicShift w
  | 0x93 => decodeSbfm w
  | 0xD3 => decodeUbfm w
  | 0x33 => decodeBfm32 w
  | 0xBA | 0xFA => decodeAddSubCarry w
  | 0x9A => decodeCselDp2 w
  | 0xDA => decodeCselDp1 w
  | 0x5A => decodeDp1 w
  | 0x9B => decodeDp3 w
  | 0x39 | 0x79 | 0xB9 | 0xF9 | 0x3D | 0x7D | 0xBD | 0xFD => decodeLdst w
  | 0xA8 | 0xA9 => decodeLdstPair w
  | 0x14 | 0x15 | 0x16 | 0x17 => some (.b false (field w 0 26))
  | 0x94 | 0x95 | 0x96 | 0x97 => some (.b true (field w 0 26))
  | 0x54 => decodeBCond w
  | 0xB4 => some (.cbz false (field w 5 19) (rd w))
  | 0xB5 => some (.cbz true (field w 5 19) (rd w))
  | 0x36 | 0xB6 => some (.tbz false ((field w 31 1).append (field w 19 5))
      (field w 5 14) (rd w))
  | 0x37 | 0xB7 => some (.tbz true ((field w 31 1).append (field w 19 5))
      (field w 5 14) (rd w))
  | 0xD6 => decodeBranchReg w
  | 0xD5 => decodeSystem w
  | 0xD4 => decodeBrk w
  | 0x0E | 0x4E | 0x6E => decodeVec w
  | 0x4F | 0x6F => decodeVecShift w
  | 0x1E | 0x9E => decodeFp w
  | 0x7F => some (.simdScalar w)
  | _ => none

/-- The instruction of a word. -/
def decode (w : Word) : Option Insn :=
  decodeTop (field w 24 8).toNat w

end Quantum.A64
