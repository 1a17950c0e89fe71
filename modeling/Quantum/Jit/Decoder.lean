import Quantum.Jit.Emitter
import Quantum.Jit.Iform

/-!
# The x86 decoder

`decoder.rs`: prefixes, the opcode tables, ModRM and SIB bytes, and immediates.  A computation of the
decoder consumes bytes from the front of the input; the position of the source's decoder is the
number of bytes consumed so far.  It fails when the bytes run out (`DecodeError.truncated`), and it
would panic where the source unwraps a register index that is out of range.

The tables are split as the source splits them (`decodePrimary`, `decodeSecondary` and the groups),
and the families of opcodes that differ only in operation and operand size share one definition.
-/

namespace Quantum.Jit

/-- A byte of guest code. -/
abbrev Byte := BitVec 8

inductive DecodeError where
  | truncated
  | reserved
  deriving Repr, DecidableEq

structure Rex where
  w : Bool
  r : Bool
  x : Bool
  b : Bool
  deriving Repr, DecidableEq

/-- The prefixes that the tables read. -/
structure Prefixes where
  repe : Bool
  repne : Bool
  osize : Bool
  seg : Option Seg
  rex : Rex
  deriving Repr, DecidableEq

def Prefixes.default : Prefixes :=
  ⟨false, false, false, none, ⟨false, false, false, false⟩⟩

/-- A computation that consumes bytes from the front of the input. -/
def DecodeM (α : Type) : Type :=
  List Byte → Except (Fault DecodeError) (α × List Byte)

namespace DecodeM

variable {α β : Type}

instance : Monad DecodeM where
  pure a := fun bs => .ok (a, bs)
  bind m f := fun bs =>
    match m bs with
    | .ok (a, bs') => f a bs'
    | .error x => .error x

def fail (x : DecodeError) : DecodeM α :=
  fun _ => .error (.err x)

/-- `unwrap`. -/
def unwrap (o : Option α) : DecodeM α :=
  match o with
  | some a => pure a
  | none => fun _ => .error (.panic "called `Option::unwrap()` on a `None` value")

end DecodeM

open DecodeM

/-! ### Reading -/

def readU8 : DecodeM Byte
  | [] => .error (.err .truncated)
  | b :: bs => .ok (b, bs)

/-- A little-endian number of `n` bytes. -/
def readLe (w : Nat) : Nat → DecodeM (BitVec w)
  | 0 => pure 0
  | n + 1 => do
    let b ← readU8
    let rest ← readLe w n
    pure (b.setWidth w ||| rest <<< 8)

def readI8 : DecodeM (BitVec 64) := do
  let b ← readU8
  pure (b.signExtend 64)

def readU16 : DecodeM (BitVec 16) := readLe 16 2
def readI32 : DecodeM (BitVec 32) := readLe 32 4
def readU64 : DecodeM (BitVec 64) := readLe 64 8

/-- An immediate of the given size, sign-extended. -/
def readImm : OpSize → DecodeM (BitVec 64)
  | .b1 => readI8
  | .b2 => do
    let v ← readU16
    pure (v.signExtend 64)
  | .b4 => do
    let v ← readI32
    pure (v.signExtend 64)
  | .b8 => readU64

/-- The prefixes before the opcode: a REX byte ends them. -/
def readPrefixes (longMode : Bool) : Prefixes → DecodeM Prefixes
  | _, [] => .error (.err .truncated)
  | p, b :: bs =>
    match b.toNat with
    | 0xF0 | 0x67 | 0x2E | 0x3E | 0x26 | 0x36 => readPrefixes longMode p bs
    | 0xF2 => readPrefixes longMode { p with repne := true } bs
    | 0xF3 => readPrefixes longMode { p with repe := true } bs
    | 0x66 => readPrefixes longMode { p with osize := true } bs
    | 0x64 => readPrefixes longMode { p with seg := some .fs } bs
    | 0x65 => readPrefixes longMode { p with seg := some .gs } bs
    | _ =>
      if longMode && b.extractLsb' 4 4 = 4 then
        .ok ({ p with rex := ⟨b.getLsbD 3, b.getLsbD 2, b.getLsbD 1, b.getLsbD 0⟩ }, bs)
      else .ok (p, b :: bs)

def opSizeDefault32 (longMode : Bool) (p : Prefixes) : OpSize :=
  match longMode && p.rex.w, p.osize with
  | true, _ => .b8
  | false, true => .b2
  | false, false => .b4

def opSizeDefault64 (longMode : Bool) (p : Prefixes) : OpSize :=
  if p.osize then .b2 else if longMode then .b8 else .b4

/-- The size of an immediate that goes with an operand of more than a byte. -/
def immSizeZ (size : OpSize) : OpSize :=
  if size = .b2 then .b2 else .b4

/-! ### ModRM and SIB -/

/-- A register number from its extension bit and its field. -/
def regIndex (ext : Bool) (field : Nat) : Nat :=
  (if ext then 8 else 0) ||| field

def gpReg (ext : Bool) (field : Nat) : DecodeM GpReg :=
  unwrap (GpReg.fromIndex (regIndex ext field))

def regOperand (p : Prefixes) (regField : Nat) (size : OpSize) : DecodeM Operand := do
  let r ← gpReg p.rex.r regField
  pure (.reg r size)

def opcodeRegOperand (p : Prefixes) (low3 : Nat) (size : OpSize) : DecodeM Operand := do
  let r ← gpReg p.rex.b low3
  pure (.reg r size)

/-- The scale of a SIB byte. -/
def sibScale (sib : Byte) : Nat :=
  1 <<< (sib.extractLsb' 6 2).toNat

theorem sibScale_valid (sib : Byte) :
    sibScale sib = 1 ∨ sibScale sib = 2 ∨ sibScale sib = 4 ∨ sibScale sib = 8 := by
  have h : ∀ b : BitVec 2, 1 <<< b.toNat = 1 ∨ 1 <<< b.toNat = 2 ∨ 1 <<< b.toNat = 4
      ∨ 1 <<< b.toNat = 8 := by decide
  exact h _

/-- Base, index and scale of a memory operand, with a SIB byte when `rm` is 4. -/
structure Sib where
  base : Option GpReg
  index : Option GpReg
  scale : Nat
  scale_valid : scale = 1 ∨ scale = 2 ∨ scale = 4 ∨ scale = 8

def decodeSib (p : Prefixes) (mod rm : Nat) : DecodeM Sib :=
  if rm = 4 then do
    let sib ← readU8
    let indexIdx := (sib.extractLsb' 3 3).toNat
    let baseIdx := (sib.extractLsb' 0 3).toNat
    -- the encoding of RSP as an index means no index
    let index ←
      if indexIdx = 4 && !p.rex.x then pure none
      else do
        let r ← gpReg p.rex.x indexIdx
        pure (some r)
    let base ←
      if mod = 0 && baseIdx = 5 then pure none
      else do
        let r ← gpReg p.rex.b baseIdx
        pure (some r)
    pure ⟨base, index, sibScale sib, sibScale_valid sib⟩
  else do
    let r ← gpReg p.rex.b rm
    pure ⟨some r, none, 1, .inl rfl⟩

def decodeRmMemory (longMode : Bool) (p : Prefixes) (mod rm : Nat) (size : OpSize) :
    DecodeM Operand :=
  if mod = 0 ∧ rm = 5 then do
    let disp ← readI32
    if longMode then pure (.ripRel disp size)
    else pure (.mem { base := none, index := none, scale := 1, disp, size, seg := p.seg })
  else do
    let sib ← decodeSib p mod rm
    let disp ←
      match mod with
      | 0 => if rm = 4 && sib.base.isNone then readI32 else pure 0
      | 1 => do
        let b ← readU8
        pure (b.signExtend 32)
      | 2 => readI32
      | _ => pure 0
    pure (.mem { base := sib.base, index := sib.index, scale := sib.scale, disp, size, seg := p.seg,
                 scale_valid := sib.scale_valid })

/-- The mod, reg and rm fields of a ModRM byte. -/
def readModRm : DecodeM (Nat × Nat × Nat) := do
  let modrm ← readU8
  pure ((modrm.extractLsb' 6 2).toNat, (modrm.extractLsb' 3 3).toNat,
    (modrm.extractLsb' 0 3).toNat)

/-- The r/m operand and the reg field. -/
def decodeModrm (longMode : Bool) (p : Prefixes) (size : OpSize) : DecodeM (Operand × Nat) := do
  let (mod, reg, rm) ← readModRm
  let op ←
    if mod = 3 then do
      let r ← gpReg p.rex.b rm
      pure (.reg r size)
    else decodeRmMemory longMode p mod rm size
  pure (op, reg)

/-- An XMM register operand. -/
def xmmOperand (index : Nat) (size : OpSize) : Operand :=
  .xmmReg (BitVec.ofNat 8 index) size

/-- The r/m operand as an XMM register, and the extended reg field. -/
def decodeModrmXmm (longMode : Bool) (p : Prefixes) (size : OpSize) : DecodeM (Operand × Nat) := do
  let (mod, reg, rm) ← readModRm
  let op ←
    if mod = 3 then pure (xmmOperand (regIndex p.rex.b rm) size)
    else decodeRmMemory longMode p mod rm size
  pure (op, regIndex p.rex.r reg)

/-! ### Instructions -/

/-- What the tables produce; `next` fills in the length and the address. -/
structure Form where
  op : Op
  operand0 : Option Operand
  operand1 : Option Operand
  operand2 : Option Operand

def make (op : Op) (operand0 operand1 operand2 : Option Operand) : DecodeM Form :=
  pure ⟨op, operand0, operand1, operand2⟩

def make0 (op : Op) : DecodeM Form := make op none none none
def unhandledForm : DecodeM Form := make0 .unhandled

def condFromLow4 : Nat → Cond
  | 0x0 => .o | 0x1 => .no | 0x2 => .b | 0x3 => .nb | 0x4 => .e | 0x5 => .ne | 0x6 => .be
  | 0x7 => .a | 0x8 => .s | 0x9 => .ns | 0xA => .p | 0xB => .np | 0xC => .l | 0xD => .nl
  | 0xE => .le | _ => .g

/-- The operations of the arithmetic block and of group 1. -/
def arithOp : Nat → Op
  | 0 => .add | 1 => .or | 2 => .adc | 3 => .sbb | 4 => .and | 5 => .sub | 6 => .xor | _ => .cmp

section Tables

variable (longMode : Bool) (p : Prefixes)

/-- `op r/m, r`. -/
def rmReg (op : Op) (size : OpSize) : DecodeM Form := do
  let (rm, reg) ← decodeModrm longMode p size
  let r ← regOperand p reg size
  make op (some rm) (some r) none

/-- `op r, r/m`, with the sizes of the two operands. -/
def regRm (op : Op) (size rmSize : OpSize) : DecodeM Form := do
  let (rm, reg) ← decodeModrm longMode p rmSize
  let r ← regOperand p reg size
  make op (some r) (some rm) none

/-- `op rax, imm`. -/
def accImm (op : Op) (size immSize : OpSize) : DecodeM Form := do
  let imm ← readImm immSize
  make op (some (.reg .rax size)) (some (.imm imm immSize)) none

/-- `op imm`. -/
def immOnly (op : Op) (readSize size : OpSize) : DecodeM Form := do
  let imm ← readImm readSize
  make op (some (.imm imm size)) none none

/-- A register named by the opcode. -/
def opcodeReg (op : Op) (low3 : Nat) (size : OpSize) : DecodeM Form := do
  let r ← opcodeRegOperand p low3 size
  make op (some r) none none

def decodeArithForm (opcode : Nat) (op : Op) : DecodeM Form :=
  let size := opSizeDefault32 longMode p
  match opcode % 8 with
  | 0 => rmReg longMode p op .b1
  | 1 => rmReg longMode p op size
  | 2 => regRm longMode p op .b1 .b1
  | 3 => regRm longMode p op size size
  | 4 => accImm op .b1 .b1
  | 5 => accImm op size (immSizeZ size)
  | _ => unhandledForm

def decodeGroup1 (size immSize : OpSize) : DecodeM Form := do
  let (rm, sub) ← decodeModrm longMode p size
  let imm ← readImm immSize
  make (arithOp sub) (some rm) (some (.imm imm immSize)) none

inductive ShiftAmountForm where
  | one | cl | imm8
  deriving Repr, DecidableEq

def group2Op : Nat → Op
  | 0 => .rol | 1 => .ror | 2 => .rcl | 3 => .rcr | 4 => .shl | 5 => .shr | 6 => .shl | _ => .sar

def decodeGroup2 (size : OpSize) (amount : ShiftAmountForm) : DecodeM Form := do
  let (rm, sub) ← decodeModrm longMode p size
  let amt ←
    match amount with
    | .one => pure (.imm 1 .b1)
    | .cl => pure (.reg .rcx .b1)
    | .imm8 => do
      let v ← readU8
      pure (.imm (v.setWidth 64) .b1)
  make (group2Op sub) (some rm) (some amt) none

def decodeGroup3 (size : OpSize) : DecodeM Form := do
  let (rm, sub) ← decodeModrm longMode p size
  match sub with
  | 0 | 1 => do
    let immSize := if size = .b1 then .b1 else immSizeZ size
    let imm ← readImm immSize
    make .test (some rm) (some (.imm imm immSize)) none
  | 2 => make .not (some rm) none none
  | 3 => make .neg (some rm) none none
  | 4 => make .mul (some rm) none none
  | 5 => make .imul (some rm) none none
  | 6 => make .div (some rm) none none
  | _ => make .idiv (some rm) none none

def decodeGroup4 : DecodeM Form := do
  let (rm, sub) ← decodeModrm longMode p .b1
  match sub with
  | 0 => make .inc (some rm) none none
  | 1 => make .dec (some rm) none none
  | _ => unhandledForm

def rewidth (op : Operand) (size : OpSize) : Operand :=
  match op with
  | .reg r _ => .reg r size
  | .xmmReg n _ => .xmmReg n size
  | .mem m => .mem { m with size }
  | .ripRel d _ => .ripRel d size
  | .imm v _ => .imm v size

def decodeGroup5 : DecodeM Form := do
  let callSize := opSizeDefault64 longMode p
  let (rm, sub) ← decodeModrm longMode p (opSizeDefault32 longMode p)
  match sub with
  | 0 => make .inc (some rm) none none
  | 1 => make .dec (some rm) none none
  | 2 => make .callIndirect (some (rewidth rm callSize)) none none
  | 4 => make .jmpIndirect (some (rewidth rm callSize)) none none
  | 6 => make .push (some (rewidth rm callSize)) none none
  | _ => unhandledForm

/-- `IMUL r, r/m, imm`. -/
def imulImm (size immSize : OpSize) : DecodeM Form := do
  let (rm, reg) ← decodeModrm longMode p size
  let r ← regOperand p reg size
  let imm ← readImm immSize
  make .imul (some r) (some rm) (some (.imm imm size))

/-- `MOV r/m, imm` (group 11). -/
def movRmImm (size immSize : OpSize) : DecodeM Form := do
  let (rm, sub) ← decodeModrm longMode p size
  if sub ≠ 0 then unhandledForm
  else do
    let imm ← readImm immSize
    make .mov (some rm) (some (.imm imm immSize)) none

/-- `MOV r, imm` with the register in the opcode. -/
def movOpcodeReg (low3 : Nat) (size : OpSize) : DecodeM Form := do
  let r ← opcodeRegOperand p low3 size
  let imm ← readImm size
  make .mov (some r) (some (.imm imm size)) none

/-- `MOVS` and `STOS`: the element size and the repeat flag as immediates. -/
def stringForm (op : Op) (sizeBytes : BitVec 64) : DecodeM Form :=
  make op (some (.imm sizeBytes .b1)) (some (.imm (if p.repe then 1 else 0) .b1)) none

/-- `POP r/m`. -/
def popRm : DecodeM Form := do
  let (rm, sub) ← decodeModrm longMode p (opSizeDefault64 longMode p)
  if sub ≠ 0 then unhandledForm else make .pop (some rm) none none

/-- `XCHG rax, r`. -/
def xchgAcc (low3 : Nat) : DecodeM Form := do
  let size := opSizeDefault32 longMode p
  let other ← opcodeRegOperand p low3 size
  make .xchg (some (.reg .rax size)) (some other) none

/-- The string element size of the opcodes that are not byte-wide. -/
def stringSize : BitVec 64 := if p.rex.w then 8 else 4

def decodePrimary (opcode : Nat) : DecodeM Form :=
  let size := opSizeDefault32 longMode p
  let size64 := opSizeDefault64 longMode p
  if opcode ≤ 0x3D ∧ opcode % 8 ≤ 5 then decodeArithForm longMode p opcode (arithOp (opcode / 8))
  else if 0x40 ≤ opcode ∧ opcode ≤ 0x47 ∧ longMode = false then
    opcodeReg p .inc (opcode - 0x40) size
  else if 0x48 ≤ opcode ∧ opcode ≤ 0x4F ∧ longMode = false then
    opcodeReg p .dec (opcode - 0x48) size
  else if 0x50 ≤ opcode ∧ opcode ≤ 0x57 then opcodeReg p .push (opcode - 0x50) size64
  else if 0x58 ≤ opcode ∧ opcode ≤ 0x5F then opcodeReg p .pop (opcode - 0x58) size64
  else if 0x70 ≤ opcode ∧ opcode ≤ 0x7F then immOnly (.jcc (condFromLow4 (opcode % 16))) .b1 .b1
  else if 0x91 ≤ opcode ∧ opcode ≤ 0x97 then xchgAcc longMode p (opcode - 0x90)
  else if 0xB0 ≤ opcode ∧ opcode ≤ 0xB7 then movOpcodeReg p (opcode - 0xB0) .b1
  else if 0xB8 ≤ opcode ∧ opcode ≤ 0xBF then
    movOpcodeReg p (opcode - 0xB8) (if p.rex.w then .b8 else if p.osize then .b2 else .b4)
  else
    match opcode with
    | 0x63 => regRm longMode p .movsxd (if p.rex.w then .b8 else .b4) .b4
    | 0x68 => immOnly .push .b4 size64
    | 0x6A => immOnly .push .b1 size64
    | 0x69 => imulImm longMode p size (immSizeZ size)
    | 0x6B => imulImm longMode p size .b1
    | 0x80 => decodeGroup1 longMode p .b1 .b1
    | 0x81 => decodeGroup1 longMode p size (immSizeZ size)
    | 0x83 => decodeGroup1 longMode p size .b1
    | 0x84 => rmReg longMode p .test .b1
    | 0x85 => rmReg longMode p .test size
    | 0x86 => rmReg longMode p .xchg .b1
    | 0x87 => rmReg longMode p .xchg size
    | 0x88 => rmReg longMode p .mov .b1
    | 0x89 => rmReg longMode p .mov size
    | 0x8A => regRm longMode p .mov .b1 .b1
    | 0x8B => regRm longMode p .mov size size
    | 0x8D => regRm longMode p .lea size size
    | 0x8F => popRm longMode p
    | 0x90 => make0 .nop
    | 0x98 => make0 .cwde
    | 0x99 => make0 (if p.rex.w then .cqo else .cdq)
    | 0x9C => make0 .pushfq
    | 0x9D => make0 .popfq
    | 0xA8 => accImm .test .b1 .b1
    | 0xA9 => accImm .test size (immSizeZ size)
    | 0xC0 => decodeGroup2 longMode p .b1 .imm8
    | 0xC1 => decodeGroup2 longMode p size .imm8
    | 0xC2 => do
      let imm ← readU16
      make .retImm (some (.imm (imm.setWidth 64) .b2)) none none
    | 0xA4 => stringForm p .movs 1
    | 0xA5 => stringForm p .movs (stringSize p)
    | 0xAA => stringForm p .stos 1
    | 0xAB => stringForm p .stos (stringSize p)
    | 0xC3 => make0 .ret
    | 0xC6 => movRmImm longMode p .b1 .b1
    | 0xC7 => movRmImm longMode p size (immSizeZ size)
    | 0xC9 => make0 .leave
    | 0xCC => make0 .int3
    | 0xCD => do
      let imm ← readU8
      make .int (some (.imm (imm.setWidth 64) .b1)) none none
    | 0xD0 => decodeGroup2 longMode p .b1 .one
    | 0xD1 => decodeGroup2 longMode p size .one
    | 0xD2 => decodeGroup2 longMode p .b1 .cl
    | 0xD3 => decodeGroup2 longMode p size .cl
    | 0xE8 => immOnly .call .b4 .b4
    | 0xE9 => immOnly .jmp .b4 .b4
    | 0xEB => immOnly .jmp .b1 .b1
    | 0xF4 => make0 .hlt
    | 0xF5 => make0 .cmc
    | 0xF6 => decodeGroup3 longMode p .b1
    | 0xF7 => decodeGroup3 longMode p size
    | 0xF8 => make0 .clc
    | 0xF9 => make0 .stc
    | 0xFC => make0 .cld
    | 0xFD => make0 .std
    | 0xFE => decodeGroup4 longMode p
    | 0xFF => decodeGroup5 longMode p
    | _ => unhandledForm

/-! ### The `0F` table -/

/-- `op xmm, xmm/m`, with the sizes of the two operands. -/
def xmmRm (op : Op) (size rmSize : OpSize) : DecodeM Form := do
  let (rm, reg) ← decodeModrmXmm longMode p rmSize
  make op (some (xmmOperand reg size)) (some rm) none

/-- `op xmm/m, xmm`. -/
def rmXmm (op : Op) (size : OpSize) : DecodeM Form := do
  let (rm, reg) ← decodeModrmXmm longMode p size
  make op (some rm) (some (xmmOperand reg size)) none

/-- `op xmm, r/m`: the reg field is taken without its extension bit. -/
def xmmGpr (op : Op) (size rmSize : OpSize) : DecodeM Form := do
  let (rm, reg) ← decodeModrm longMode p rmSize
  make op (some (xmmOperand reg size)) (some rm) none

/-- `op r/m, xmm`: the reg field is taken without its extension bit. -/
def gprXmm (op : Op) (size : OpSize) : DecodeM Form := do
  let (rm, reg) ← decodeModrm longMode p size
  make op (some rm) (some (xmmOperand reg size)) none

/-- `op r, xmm/m`. -/
def regXmm (op : Op) (intSize fpSize : OpSize) : DecodeM Form := do
  let (rm, reg) ← decodeModrmXmm longMode p fpSize
  let r ← regOperand p reg intSize
  make op (some r) (some rm) none

/-- The packed shifts by immediate. -/
def packedShiftOp (sub : Nat) (lane : OpSize) : Option Op :=
  match sub, lane with
  | 2, _ => some (.psrlImm lane)
  | 3, .b8 => some .psrldqImm
  | 4, .b2 => some (.psraImm lane)
  | 4, .b4 => some (.psraImm lane)
  | 6, _ => some (.psllImm lane)
  | 7, .b8 => some .pslldqImm
  | _, _ => none

def decodePackedShift (lane : OpSize) : DecodeM Form := do
  let (mod, sub, rm) ← readModRm
  if mod ≠ 3 then unhandledForm
  else do
    let imm ← readU8
    match packedShiftOp sub lane with
    | some op =>
      make op (some (xmmOperand (regIndex p.rex.b rm) .b8)) (some (.imm (imm.setWidth 64) .b1)) none
    | none => unhandledForm

def decodePmovmskb : DecodeM Form := do
  let (mod, reg, rm) ← readModRm
  if mod ≠ 3 then unhandledForm
  else do
    let r ← gpReg p.rex.r reg
    make .pmovmskB (some (.reg r .b4)) (some (xmmOperand (regIndex p.rex.b rm) .b8)) none

def decodePshufd : DecodeM Form := do
  let (rm, reg) ← decodeModrmXmm longMode p .b8
  let imm ← readU8
  make .pshufD (some (xmmOperand reg .b8)) (some rm) (some (.imm (imm.setWidth 64) .b1))

/-- Group 8: bit tests with an immediate. -/
def decodeGroup8 (size : OpSize) : DecodeM Form := do
  let (rm, sub) ← decodeModrm longMode p size
  let imm ← readI8
  match sub with
  | 4 => make .bt (some rm) (some (.imm imm .b1)) none
  | 5 => make .bts (some rm) (some (.imm imm .b1)) none
  | 6 => make .btr (some rm) (some (.imm imm .b1)) none
  | 7 => make .btc (some rm) (some (.imm imm .b1)) none
  | _ => unhandledForm

def decodeNopRm : DecodeM Form := do
  let _ ← decodeModrm longMode p .b4
  make0 .nop

def decodeSet (cond : Cond) : DecodeM Form := do
  let (rm, _) ← decodeModrm longMode p .b1
  make (.set cond) (some rm) none none

/-- The scalar size that `F2` or `F3` selects. -/
def scalarSize : OpSize := if p.repne then .b8 else .b4

/-- The size of the integer side of a conversion or a move. -/
def intSize : OpSize := if p.rex.w then .b8 else .b4

/-- The rows of the `0F` table with the `66` prefix. -/
def decodeOsize (opcode : Nat) : Option (DecodeM Form) :=
  match opcode with
  | 0x6E => some (xmmGpr longMode p .movqXmm (intSize p) (intSize p))
  | 0x7E => some (gprXmm longMode p .movqXmm (intSize p))
  | 0x71 => some (decodePackedShift p .b2)
  | 0x72 => some (decodePackedShift p .b4)
  | 0x73 => some (decodePackedShift p .b8)
  | 0x60 => some (xmmRm longMode p (.punpckLow .b1) .b8 .b8)
  | 0x61 => some (xmmRm longMode p (.punpckLow .b2) .b8 .b8)
  | 0x62 => some (xmmRm longMode p (.punpckLow .b4) .b8 .b8)
  | 0x68 => some (xmmRm longMode p (.punpckHigh .b1) .b8 .b8)
  | 0x69 => some (xmmRm longMode p (.punpckHigh .b2) .b8 .b8)
  | 0x6A => some (xmmRm longMode p (.punpckHigh .b4) .b8 .b8)
  | 0x6C => some (xmmRm longMode p (.punpckLow .b8) .b8 .b8)
  | 0x6D => some (xmmRm longMode p (.punpckHigh .b8) .b8 .b8)
  | 0xD7 => some (decodePmovmskb p)
  | 0xD5 => some (xmmRm longMode p .pmullW .b8 .b8)
  | 0x70 => some (decodePshufd longMode p)
  | 0x74 => some (xmmRm longMode p (.pcmpeqLane .b1) .b8 .b8)
  | 0x75 => some (xmmRm longMode p (.pcmpeqLane .b2) .b8 .b8)
  | 0x76 => some (xmmRm longMode p (.pcmpeqLane .b4) .b8 .b8)
  | 0xEF => some (xmmRm longMode p .pxorXmm .b8 .b8)
  | 0xDB => some (xmmRm longMode p .pandXmm .b8 .b8)
  | 0xEB => some (xmmRm longMode p .porXmm .b8 .b8)
  | 0xD4 => some (xmmRm longMode p .paddQ .b8 .b8)
  | 0xFB => some (xmmRm longMode p .psubQ .b8 .b8)
  | 0xFE => some (xmmRm longMode p .paddD .b8 .b8)
  | 0xFA => some (xmmRm longMode p .psubD .b8 .b8)
  | 0xFD => some (xmmRm longMode p .paddW .b8 .b8)
  | 0xF9 => some (xmmRm longMode p .psubW .b8 .b8)
  | 0xFC => some (xmmRm longMode p .paddB .b8 .b8)
  | 0xF8 => some (xmmRm longMode p .psubB .b8 .b8)
  | _ => none

/-- The rows with the `F2` or the `F3` prefix. -/
def decodeRep (opcode : Nat) : Option (DecodeM Form) :=
  let size := scalarSize p
  match opcode with
  | 0x10 => some (xmmRm longMode p (if p.repne then .movsdXmm else .movssXmm) size size)
  | 0x11 => some (rmXmm longMode p (if p.repne then .movsdXmm else .movssXmm) size)
  | 0x58 => some (xmmRm longMode p .addScalar size size)
  | 0x59 => some (xmmRm longMode p .mulScalar size size)
  | 0x5C => some (xmmRm longMode p .subScalar size size)
  | 0x5E => some (xmmRm longMode p .divScalar size size)
  | 0x2A => some (xmmGpr longMode p .cvtIntToScalar size (intSize p))
  | 0x2C => some (regXmm longMode p .cvtScalarToIntTrunc (intSize p) size)
  | 0x2D => some (regXmm longMode p .cvtScalarToInt (intSize p) size)
  | 0x5A =>
    if p.repne then some (xmmRm longMode p .cvtSdToSs .b4 .b8)
    else some (xmmRm longMode p .cvtSsToSd .b8 .b4)
  | 0x51 => some (xmmRm longMode p .sqrtScalar size size)
  | 0x5D => some (xmmRm longMode p .minScalar size size)
  | 0x5F => some (xmmRm longMode p .maxScalar size size)
  | _ => none

/-- The rows with neither `F2` nor `F3`: packed floating point and compares. -/
def decodeNoRep (opcode : Nat) : Option (DecodeM Form) :=
  let size := if p.osize then .b8 else .b4
  match opcode with
  | 0x58 => some (xmmRm longMode p .addPacked size size)
  | 0x59 => some (xmmRm longMode p .mulPacked size size)
  | 0x5C => some (xmmRm longMode p .subPacked size size)
  | 0x5E => some (xmmRm longMode p .divPacked size size)
  | 0x2E => some (xmmRm longMode p .ucomisScalar size size)
  | 0x2F => some (xmmRm longMode p .ucomisScalar size size)
  | 0xA2 => if p.osize then none else some (make0 .cpuid)
  | _ => none

/-- The rows that `66` or `F3` selects; `66` comes first for `7E`. -/
def decodeOsizeOrRepe (opcode : Nat) : Option (DecodeM Form) :=
  match opcode with
  | 0x6F => some (xmmRm longMode p .movdqXmm .b8 .b8)
  | 0x7F => some (rmXmm longMode p .movdqXmm .b8)
  | 0x7E => if p.osize then none else some (xmmRm longMode p .movqXmm .b8 .b8)
  | _ => none

/-- The rows that no prefix selects. -/
def decodePlain (opcode : Nat) : DecodeM Form :=
  let size := opSizeDefault32 longMode p
  if 0x40 ≤ opcode ∧ opcode ≤ 0x4F then
    regRm longMode p (.cmov (condFromLow4 (opcode % 16))) size size
  else if 0x80 ≤ opcode ∧ opcode ≤ 0x8F then immOnly (.jcc (condFromLow4 (opcode % 16))) .b4 .b4
  else if 0x90 ≤ opcode ∧ opcode ≤ 0x9F then decodeSet longMode p (condFromLow4 (opcode % 16))
  else if 0xC8 ≤ opcode ∧ opcode ≤ 0xCF then opcodeReg p .bswap (opcode - 0xC8) (intSize p)
  else
    match opcode with
    | 0x05 => make0 .syscall
    | 0x0B => make0 .ud2
    | 0x31 => make0 .rdtsc
    | 0x1F => decodeNopRm longMode p
    | 0xA3 => rmReg longMode p .bt size
    | 0xAF => regRm longMode p .imul size size
    | 0xB0 => rmReg longMode p .cmpxchg .b1
    | 0xB1 => rmReg longMode p .cmpxchg size
    | 0xB6 => regRm longMode p .movzx size .b1
    | 0xB7 => regRm longMode p .movzx size .b2
    | 0xBA => decodeGroup8 longMode p size
    | 0xBC => regRm longMode p .bsf size size
    | 0xBD => regRm longMode p .bsr size size
    | 0xBE => regRm longMode p .movsx size .b1
    | 0xBF => regRm longMode p .movsx size .b2
    | 0xC0 => rmReg longMode p .xadd .b1
    | 0xC1 => rmReg longMode p .xadd size
    | _ => unhandledForm

/-- The rows are disjoint in the opcode, or in the prefixes, but for `7E`. -/
def decodeSecondary : DecodeM Form := do
  let opcode := (← readU8).toNat
  let rows := [(p.osize, decodeOsize longMode p opcode),
    (p.osize || p.repe, decodeOsizeOrRepe longMode p opcode),
    (p.repne || p.repe, decodeRep longMode p opcode),
    (!p.repne && !p.repe, decodeNoRep longMode p opcode)]
  match rows.findSome? fun (sel, row) => if sel then row else none with
  | some m => m
  | none => decodePlain longMode p opcode

end Tables

/-- The opcode, after the prefixes. -/
def decodeOpcode (longMode : Bool) : DecodeM Form := do
  let p ← readPrefixes longMode Prefixes.default
  let opcode ← readU8
  if opcode = 0x0F then decodeSecondary longMode p else decodePrimary longMode p opcode.toNat

/-- Decode one instruction at the address `rip`. -/
def decodeNext (longMode : Bool) (rip : BitVec 64) : DecodeM Inst :=
  fun bs =>
    match decodeOpcode longMode bs with
    | .ok (f, rest) =>
      .ok (⟨f.op, f.operand0, f.operand1, f.operand2, BitVec.ofNat 8 (bs.length - rest.length), rip⟩,
        rest)
    | .error x => .error x

/-! ### Decoders -/

/-- A decoder over a slice of bytes: `pos` is the offset of the next byte, `guestRip` the address of the
first.  No slice is longer than `isize::MAX`. -/
structure Decoder where
  bytes : List Byte
  pos : Nat
  guestRip : BitVec 64
  longMode : Bool
  bytes_lt : bytes.length < 2 ^ 63
  pos_le : pos ≤ bytes.length

namespace Decoder

def new (bytes : List Byte) (guestRip : BitVec 64) (h : bytes.length < 2 ^ 63) : Decoder :=
  ⟨bytes, 0, guestRip, true, h, Nat.zero_le _⟩

def newLegacy32 (bytes : List Byte) (guestEip : BitVec 64) (h : bytes.length < 2 ^ 63) : Decoder :=
  ⟨bytes, 0, guestEip, false, h, Nat.zero_le _⟩

/-- The address of the next byte. -/
def rip (d : Decoder) : BitVec 64 :=
  d.guestRip + BitVec.ofNat 64 d.pos

/-- The bytes that are left. -/
def left (d : Decoder) : List Byte :=
  d.bytes.drop d.pos

/-- Decode one instruction and move past it. -/
def next (d : Decoder) : Except (Fault DecodeError) (Inst × Decoder) :=
  match decodeNext d.longMode d.rip d.left with
  | .ok (inst, rest) =>
    .ok (inst, { d with pos := d.bytes.length - rest.length, pos_le := Nat.sub_le _ _ })
  | .error x => .error x

end Decoder

end Quantum.Jit
