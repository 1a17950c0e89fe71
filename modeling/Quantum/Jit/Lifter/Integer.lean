import Quantum.Jit.Lifter.Basic

/-!
# The lifter: integer instructions

One function per integer instruction of `lifter.rs`: moves, arithmetic, logic, shifts, exchanges,
conditional moves, the guest stack and the string loops.  `X16` and `X17` are scratch: `X16` holds an
address or an immediate and `X17` the second operand or the old value.
-/

namespace Quantum.Jit

open A64 (Word Reg)
open EmitM

inductive ArithKind where
  | add | sub
  deriving Repr, DecidableEq

inductive BitOp where
  | and | or
  deriving Repr, DecidableEq

inductive DivMulKind where
  | div | idiv | mul | imul1
  deriving Repr, DecidableEq

inductive ShiftDir where
  | left | right | arithRight
  deriving Repr, DecidableEq

/-! ### Moves -/

def movRegImm (rd : GpReg) (size : OpSize) (imm : BitVec 64) : LiftM Unit :=
  match size with
  | .b8 => loadConst64 (hostReg rd) imm
  | .b4 => do
    movz32 (hostReg rd) (imm.setWidth 16) 0
    if imm.extractLsb' 16 16 ≠ 0 then movk32 (hostReg rd) (imm.extractLsb' 16 16) 16 else pure ()
  | .b2 | .b1 => movk64 (hostReg rd) (imm.setWidth 16) 0

def movRegReg (rd : GpReg) (dstSize : OpSize) (rs : GpReg) : LiftM Unit :=
  match dstSize with
  | .b8 => mov64 (hostReg rd) (hostReg rs)
  | .b4 => emitAndImmLo32 (hostReg rd) (hostReg rs)
  | .b2 | .b1 => mov64 (hostReg rd) (hostReg rs)

def liftMov (inst : Inst) : LiftM Unit := do
  let dst ← operand inst.operand0
  let src ← operand inst.operand1
  match dst, src with
  | .reg rd size, .imm imm _ => movRegImm rd size imm
  | .reg rd dstSize, .reg rs _ => movRegReg rd dstSize rs
  | .reg rd size, .mem m => do
    let leftover ← addrIntoXtmp (.mem m) inst 16
    loadSized (hostReg rd) 16 leftover size
  | .reg rd size, .ripRel d s => do
    let leftover ← addrIntoXtmp (.ripRel d s) inst 16
    loadSized (hostReg rd) 16 leftover size
  | .mem m, .reg rs size => do
    let leftover ← addrIntoXtmp (.mem m) inst 16
    storeSized (hostReg rs) 16 leftover size
  | .ripRel d s, .reg rs size => do
    let leftover ← addrIntoXtmp (.ripRel d s) inst 16
    storeSized (hostReg rs) 16 leftover size
  | .mem m, .imm imm _ => do
    let leftover ← addrIntoXtmp (.mem m) inst 16
    loadConst64 17 imm
    storeSized 17 16 leftover m.size
  | .ripRel d s, .imm imm _ => do
    let leftover ← addrIntoXtmp (.ripRel d s) inst 16
    loadConst64 17 imm
    storeSized 17 16 leftover s
  | _, _ => unsupported .mov

/-- Load from a memory operand with zero or sign extension. -/
def loadExtend (inst : Inst) (signed : Bool) (hd : Reg) (m : Operand) : LiftM Unit := do
  let leftover ← addrIntoXtmp m inst 16
  match m.memSize, signed with
  | .b1, false => ldrb hd 16 leftover
  | .b2, false => ldrh hd 16 leftover
  | .b1, true => do
    ldrb hd 16 leftover
    emitSxtByte hd hd
  | .b2, true => do
    ldrh hd 16 leftover
    emitSxtWord hd hd
  | _, _ => unsupported inst.op

def liftMovzxOrMovsx (inst : Inst) (signed : Bool) : LiftM Unit := do
  let dst ← operand inst.operand0
  let src ← operand inst.operand1
  match dst, src with
  | .reg rd _, .reg rs srcSize =>
    match srcSize, signed with
    | .b1, false => emitAndImmByte (hostReg rd) (hostReg rs)
    | .b2, false => emitAndImmWord (hostReg rd) (hostReg rs)
    | .b1, true => emitSxtByte (hostReg rd) (hostReg rs)
    | .b2, true => emitSxtWord (hostReg rd) (hostReg rs)
    | _, _ => unsupported inst.op
  | .reg rd _, .mem m => loadExtend inst signed (hostReg rd) (.mem m)
  | .reg rd _, .ripRel d s => loadExtend inst signed (hostReg rd) (.ripRel d s)
  | _, _ => unsupported inst.op

def liftMovsxd (inst : Inst) : LiftM Unit := do
  let dst ← operand inst.operand0
  let src ← operand inst.operand1
  match dst, src with
  | .reg rd _, .reg rs _ => emitSxtw (hostReg rd) (hostReg rs)
  | _, _ => unsupported .movsxd

def liftLea (inst : Inst) : LiftM Unit := do
  let dst ← operand inst.operand0
  let src ← operand inst.operand1
  match dst with
  | .reg rd size => do
    let leftover ←
      match src with
      | .mem m => memAddressInto m (hostReg rd)
      | .ripRel disp _ => do
        loadConst64 (hostReg rd) (ripRelTarget inst disp)
        pure 0
      | _ => unsupported .lea
    if leftover ≠ 0 then add64Imm (hostReg rd) (hostReg rd) leftover else pure ()
    maskB4 size (hostReg rd)
  | _ => unsupported .lea

/-! ### Add, subtract and compare -/

/-- `rd = ra ± rb` with flags, masked to 32 bits for `B4`. -/
def emitArithRr (kind : ArithKind) (rd ra rb : Reg) (size : OpSize) : LiftM Unit := do
  match kind with
  | .add => adds64 rd ra rb
  | .sub => subs64 rd ra rb
  maskB4 size rd

/-- Is a non-negative immediate encodable?  The source narrows it to 32 bits first. -/
def smallImm (imm : BitVec 64) : Bool :=
  !imm.msb && imm12Encodable (imm.setWidth 32)

def arithRegImm (inst : Inst) (kind : ArithKind) (rd : GpReg) (size : OpSize) (imm : BitVec 64) :
    LiftM Unit :=
  if smallImm imm && (size = .b8 || size = .b4) then do
    match kind with
    | .add => adds64Imm (hostReg rd) (hostReg rd) (imm.setWidth 32)
    | .sub => subs64Imm (hostReg rd) (hostReg rd) (imm.setWidth 32)
    maskB4 size (hostReg rd)
  else if size = .b8 || size = .b4 then do
    loadConst64 17 imm
    emitArithRr kind (hostReg rd) (hostReg rd) 17 size
  else unsupported inst.op

/-- `reg, [mem]`: load, then combine; the destination size is the register's. -/
def regMemOp (inst : Inst) (m : Operand) (emit : Reg → LiftM Unit) : LiftM Unit := do
  let _ ← loadOperand m inst m.memSize
  emit 17

/-- `[mem], reg`: load, combine, store. -/
def memRegOp (inst : Inst) (m : Operand) (emit : LiftM Unit) : LiftM Unit := do
  let leftover ← loadOperand m inst m.memSize
  emit
  storeSized 17 16 leftover m.memSize

/-- `[mem], imm`: load, put the immediate in `X16`, combine, compute the address again, store. -/
def memImmOp (inst : Inst) (m : Operand) (imm : BitVec 64) (emit : LiftM Unit) : LiftM Unit := do
  let _ ← loadOperand m inst m.memSize
  loadConst64 16 imm
  emit
  let leftover2 ← addrIntoXtmp m inst 16
  storeSized 17 16 leftover2 m.memSize

def liftArith (inst : Inst) (kind : ArithKind) : LiftM Unit := do
  let dst ← operand inst.operand0
  let src ← operand inst.operand1
  match dst, src with
  | .reg rd size, .reg rs _ => emitArithRr kind (hostReg rd) (hostReg rd) (hostReg rs) size
  | .reg rd size, .imm imm _ => arithRegImm inst kind rd size imm
  | .reg rd size, .mem m =>
    regMemOp inst (.mem m) fun r => emitArithRr kind (hostReg rd) (hostReg rd) r size
  | .reg rd size, .ripRel d s =>
    regMemOp inst (.ripRel d s) fun r => emitArithRr kind (hostReg rd) (hostReg rd) r size
  | .mem m, .reg rs _ => memRegOp inst (.mem m) (emitArithRr kind 17 17 (hostReg rs) m.size)
  | .ripRel d s, .reg rs _ => memRegOp inst (.ripRel d s) (emitArithRr kind 17 17 (hostReg rs) s)
  | .mem m, .imm imm _ => memImmOp inst (.mem m) imm (emitArithRr kind 17 17 16 m.size)
  | .ripRel d s, .imm imm _ => memImmOp inst (.ripRel d s) imm (emitArithRr kind 17 17 16 s)
  | _, _ => unsupported inst.op

/-- Compare `[mem]` with an immediate: `X16` is free once the operand is loaded. -/
def cmpMemImm (inst : Inst) (m : Operand) (imm : BitVec 64) : LiftM Unit := do
  let _ ← loadOperand m inst m.memSize
  if smallImm imm then cmp64Imm 17 (imm.setWidth 32)
  else do
    loadConst64 16 imm
    cmp64 17 16

def cmpRegImm (ra : GpReg) (imm : BitVec 64) : LiftM Unit :=
  if smallImm imm then cmp64Imm (hostReg ra) (imm.setWidth 32)
  else do
    loadConst64 17 imm
    cmp64 (hostReg ra) 17

/-- The size of a compare with memory is the register's, not the memory operand's. -/
def cmpMemReg (inst : Inst) (m : Operand) (rb : GpReg) (size : OpSize) : LiftM Unit := do
  let _ ← loadOperand m inst size
  cmp64 17 (hostReg rb)

def cmpRegMem (inst : Inst) (ra : GpReg) (size : OpSize) (m : Operand) : LiftM Unit := do
  let _ ← loadOperand m inst size
  cmp64 (hostReg ra) 17

def liftCmp (inst : Inst) : LiftM Unit := do
  let a ← operand inst.operand0
  let b ← operand inst.operand1
  match a, b with
  | .reg ra .b4, .reg rb _ => cmp64 (hostReg ra) (hostReg rb)
  | .reg ra .b8, .reg rb _ => cmp64 (hostReg ra) (hostReg rb)
  | .reg ra .b4, .imm imm _ => cmpRegImm ra imm
  | .reg ra .b8, .imm imm _ => cmpRegImm ra imm
  | .mem m, .reg rb size => cmpMemReg inst (.mem m) rb size
  | .ripRel d s, .reg rb size => cmpMemReg inst (.ripRel d s) rb size
  | .reg ra size, .mem m => cmpRegMem inst ra size (.mem m)
  | .reg ra size, .ripRel d s => cmpRegMem inst ra size (.ripRel d s)
  | .mem m, .imm imm _ => cmpMemImm inst (.mem m) imm
  | .ripRel d s, .imm imm _ => cmpMemImm inst (.ripRel d s) imm
  | _, _ => unsupported .cmp

/-- `ADCS rd, rd, x17` or `SBCS rd, rd, x17`. -/
def emitAddcWord (add : Bool) (rd : Reg) : LiftM Unit :=
  rawWord (regs3Word (if add then 0xBA000000#32 else 0xFA000000#32) 17 rd rd)

/-- The source of `liftAddc`, `liftImulNOperand` and `liftBitscan` into `X17`. -/
def operandIntoX17 (inst : Inst) (src : Operand) : LiftM Unit :=
  match src with
  | .reg rs _ => mov64 17 (hostReg rs)
  | .mem m => do
    let _ ← loadOperand (.mem m) inst m.size
    pure ()
  | .ripRel d s => do
    let _ ← loadOperand (.ripRel d s) inst s
    pure ()
  | _ => unsupported inst.op

def liftAddc (inst : Inst) (add : Bool) : LiftM Unit := do
  let dst ← operand inst.operand0
  let src ← operand inst.operand1
  match dst with
  | .reg r size => do
    match src with
    | .imm imm _ => loadConst64 17 imm
    | _ => operandIntoX17 inst src
    emitAddcWord add (hostReg r)
    maskB4 size (hostReg r)
  | _ => unsupported inst.op

/-! ### Logic -/

def emitBitopRr (op : BitOp) (rd ra rb : Reg) (size : OpSize) : LiftM Unit := do
  match op with
  | .and => and64 rd ra rb
  | .or => orr64 rd ra rb
  maskB4 size rd

def liftBitop (inst : Inst) (op : BitOp) : LiftM Unit := do
  let dst ← operand inst.operand0
  let src ← operand inst.operand1
  match dst, src with
  | .reg rd size, .reg rs _ => emitBitopRr op (hostReg rd) (hostReg rd) (hostReg rs) size
  | .reg rd size, .imm imm _ => do
    loadConst64 16 imm
    emitBitopRr op (hostReg rd) (hostReg rd) 16 size
  | .reg rd size, .mem m =>
    regMemOp inst (.mem m) fun r => emitBitopRr op (hostReg rd) (hostReg rd) r size
  | .reg rd size, .ripRel d s =>
    regMemOp inst (.ripRel d s) fun r => emitBitopRr op (hostReg rd) (hostReg rd) r size
  | .mem m, .reg rs _ => memRegOp inst (.mem m) (emitBitopRr op 17 17 (hostReg rs) m.size)
  | .ripRel d s, .reg rs _ => memRegOp inst (.ripRel d s) (emitBitopRr op 17 17 (hostReg rs) s)
  | .mem m, .imm imm _ => memImmOp inst (.mem m) imm (emitBitopRr op 17 17 16 m.size)
  | .ripRel d s, .imm imm _ => memImmOp inst (.ripRel d s) imm (emitBitopRr op 17 17 16 s)
  | _, _ => unsupported inst.op

def emitXorRr (rd ra rb : Reg) (size : OpSize) : LiftM Unit := do
  eor64 rd ra rb
  maskB4 size rd

def liftXor (inst : Inst) : LiftM Unit := do
  let dst ← operand inst.operand0
  let src ← operand inst.operand1
  match dst, src with
  | .reg rd size, .reg rs _ =>
    if rd = rs then
      match size with
      | .b8 => movz64 (hostReg rd) 0 0
      | .b4 | .b2 | .b1 => movz32 (hostReg rd) 0 0
    else emitXorRr (hostReg rd) (hostReg rd) (hostReg rs) size
  | .reg rd size, .imm imm _ => do
    loadConst64 16 imm
    emitXorRr (hostReg rd) (hostReg rd) 16 size
  | .reg rd size, .mem m =>
    regMemOp inst (.mem m) fun r => emitXorRr (hostReg rd) (hostReg rd) r size
  | .reg rd size, .ripRel d s =>
    regMemOp inst (.ripRel d s) fun r => emitXorRr (hostReg rd) (hostReg rd) r size
  | .mem m, .reg rs _ => memRegOp inst (.mem m) (emitXorRr 17 17 (hostReg rs) m.size)
  | .ripRel d s, .reg rs _ => memRegOp inst (.ripRel d s) (emitXorRr 17 17 (hostReg rs) s)
  | .mem m, .imm imm _ => memImmOp inst (.mem m) imm (emitXorRr 17 17 16 m.size)
  | .ripRel d s, .imm imm _ => memImmOp inst (.ripRel d s) imm (emitXorRr 17 17 16 s)
  | _, _ => unsupported .xor

/-- `TEST` of a memory operand and a register, in the order `ANDS` has them. -/
def testMemReg (inst : Inst) (m : Operand) (rb : GpReg) (memFirst : Bool) : LiftM Unit := do
  let _ ← loadOperand m inst m.memSize
  if memFirst then ands64 31 17 (hostReg rb) else ands64 31 (hostReg rb) 17

def testMemImm (inst : Inst) (m : Operand) (imm : BitVec 64) : LiftM Unit := do
  let _ ← loadOperand m inst m.memSize
  loadConst64 16 imm
  ands64 31 17 16

def liftTest (inst : Inst) : LiftM Unit := do
  let a ← operand inst.operand0
  let b ← operand inst.operand1
  match a, b with
  | .reg ra _, .reg rb _ => ands64 31 (hostReg ra) (hostReg rb)
  | .reg ra _, .imm imm _ => do
    loadConst64 16 imm
    ands64 31 (hostReg ra) 16
  | .mem m, .reg rb _ => testMemReg inst (.mem m) rb true
  | .ripRel d s, .reg rb _ => testMemReg inst (.ripRel d s) rb true
  | .reg ra _, .mem m => testMemReg inst (.mem m) ra false
  | .reg ra _, .ripRel d s => testMemReg inst (.ripRel d s) ra false
  | .mem m, .imm imm _ => testMemImm inst (.mem m) imm
  | .ripRel d s, .imm imm _ => testMemImm inst (.ripRel d s) imm
  | _, _ => unsupported .test

/-! ### One operand: `NEG`, `NOT`, `INC`, `DEC` -/

/-- A one-operand instruction on a register, or on memory through `X17`; `emit r` changes `r` in
place. -/
def unaryOp (inst : Inst) (emit : Reg → LiftM Unit) (op : Op) : LiftM Unit := do
  let dst ← operand inst.operand0
  match dst with
  | .reg rd size => do
    emit (hostReg rd)
    maskB4 size (hostReg rd)
  | .mem m =>
    memRegOp inst (.mem m) do
      emit 17
      maskB4 m.size 17
  | .ripRel d s =>
    memRegOp inst (.ripRel d s) do
      emit 17
      maskB4 s 17
  | _ => unsupported op

/-- `SUBS r, xzr, r`. -/
def emitNeg (r : Reg) : LiftM Unit := rawWord (regs3Word 0xEB000000#32 r 31 r)

/-- `MVN r, r`. -/
def emitNot (r : Reg) : LiftM Unit := rawWord (regs3Word 0xAA200000#32 r 31 r)

def emitIncDec (inc : Bool) (r : Reg) : LiftM Unit :=
  if inc then adds64Imm r r 1 else subs64Imm r r 1

def liftNeg (inst : Inst) : LiftM Unit := unaryOp inst emitNeg .neg
def liftNot (inst : Inst) : LiftM Unit := unaryOp inst emitNot .not
def liftIncDec (inst : Inst) (inc : Bool) : LiftM Unit := unaryOp inst (emitIncDec inc) inst.op

/-! ### Multiply and divide -/

def liftImulNOperand (inst : Inst) : LiftM Unit := do
  let dst ← operand inst.operand0
  let a ← operand inst.operand1
  match dst with
  | .reg r size => do
    match a with
    | .reg _ _ | .mem _ | .ripRel _ _ => operandIntoX17 inst a
    | _ => unsupported .imul
    match inst.operand2 with
    | some (.imm imm _) => loadConst64 16 imm
    | none => mov64 16 (hostReg r)
    | _ => unsupported .imul
    mul64 (hostReg r) 17 16
    maskB4 size (hostReg r)
  | _ => unsupported .imul

/-- The operand of a one-operand multiply or divide: its size and the register that holds it. -/
def divisorOf (inst : Inst) (rm : Operand) : LiftM (OpSize × Reg) :=
  match rm with
  | .reg r s => pure (s, hostReg r)
  | .mem m => do
    let _ ← loadOperand (.mem m) inst m.size
    pure (m.size, 17)
  | .ripRel d s => do
    let _ ← loadOperand (.ripRel d s) inst s
    pure (s, 17)
  | _ => unsupported inst.op

/-- 64-bit divide: the high half in `RDX` is taken to be zero. -/
def emitDiv64 (signed : Bool) (divisor : Reg) : LiftM Unit := do
  mov64 16 0
  if signed then sdiv64 0 16 divisor else udiv64 0 16 divisor
  msub64 2 0 divisor 16

/-- 32-bit divide of `EDX:EAX`. -/
def emitDiv32 (signed : Bool) (divisor : Reg) : LiftM Unit := do
  emitUxtw 16 0
  emitUxtw 17 2
  emitOrrLsl64 16 16 17 32
  emitUxtw 17 divisor
  if signed then do
    emitSxtw 16 0
    emitOrrLsl64 16 16 17 32
    emitSxtw 17 divisor
    sdiv64 0 16 17
  else udiv64 0 16 17
  msub64 2 0 17 16
  emitUxtw 0 0
  emitUxtw 2 2

def emitMul64 (signed : Bool) (divisor : Reg) : LiftM Unit := do
  mov64 16 0
  mul64 0 16 divisor
  if signed then smulh64 2 16 divisor else umulh64 2 16 divisor

def emitMul32 (signed : Bool) (divisor : Reg) : LiftM Unit := do
  if signed then do
    emitSxtw 16 0
    emitSxtw 17 divisor
  else do
    emitUxtw 16 0
    emitUxtw 17 divisor
  mul64 0 16 17
  emitUbfm64 2 0 32 63
  emitUxtw 0 0

def liftDivmul (inst : Inst) (kind : DivMulKind) : LiftM Unit := do
  let rm ← operand inst.operand0
  let (size, divisor) ← divisorOf inst rm
  match kind, size with
  | .div, .b8 => emitDiv64 false divisor
  | .idiv, .b8 => emitDiv64 true divisor
  | .div, .b4 => emitDiv32 false divisor
  | .idiv, .b4 => emitDiv32 true divisor
  | .mul, .b8 => emitMul64 false divisor
  | .imul1, .b8 => emitMul64 true divisor
  | .mul, .b4 => emitMul32 false divisor
  | .imul1, .b4 => emitMul32 true divisor
  | _, _ => unsupported inst.op

/-- `EDX` from the sign of `EAX`: the second word shifts right by 3. -/
def liftCdq : LiftM Unit := do
  rawWord (regs2Word 0x93407C00#32 (hostReg .rax) (hostReg .rdx))
  rawWord (regs2Word 0x9343FC00#32 (hostReg .rdx) (hostReg .rdx))
  emitAndImmLo32 (hostReg .rdx) (hostReg .rdx)

/-- `RDX` from the sign of `RAX`. -/
def liftCqo : LiftM Unit :=
  rawWord (bfmWord 0x93400000#32 63 63 (hostReg .rax) (hostReg .rdx))

/-! ### Shifts, rotates and bit scans -/

/-- The mask of a shift count. -/
def countMask (size : OpSize) : BitVec 64 :=
  if size = .b8 then 0x3F else 0x1F

def shiftAmount (inst : Inst) (size : OpSize) (amt : Operand) : LiftM Reg :=
  match amt with
  | .imm imm _ => do
    movz64 16 ((imm &&& countMask size).setWidth 16) 0
    pure 16
  | .reg .rcx _ => pure (hostReg .rcx)
  | _ => unsupported inst.op

def liftShift (inst : Inst) (dir : ShiftDir) : LiftM Unit := do
  let dst ← operand inst.operand0
  let amt ← operand inst.operand1
  match dst with
  | .reg rd size => do
    let amtReg ← shiftAmount inst size amt
    if dir = .arithRight ∧ size = .b4 then emitSxtw (hostReg rd) (hostReg rd) else pure ()
    match dir with
    | .left => lslv64 (hostReg rd) (hostReg rd) amtReg
    | .right => lsrv64 (hostReg rd) (hostReg rd) amtReg
    | .arithRight => asrv64 (hostReg rd) (hostReg rd) amtReg
    maskB4 size (hostReg rd)
  | _ => unsupported inst.op

/-- The width a rotate wraps at. -/
def rotateWidth (size : OpSize) : BitVec 32 :=
  if size = .b8 then 64 else 32

def rotateCount (size : OpSize) (rol : Bool) (imm : BitVec 64) : BitVec 32 :=
  let n := (imm &&& countMask size).setWidth 32
  if rol then (rotateWidth size - n) &&& (countMask size).setWidth 32 else n

def rotateAmount (inst : Inst) (size : OpSize) (rol : Bool) (amt : Operand) : LiftM Reg :=
  match amt with
  | .imm imm _ => do
    movz64 16 ((rotateCount size rol imm).setWidth 16) 0
    pure 16
  | .reg .rcx _ =>
    if rol then do
      movz64 16 ((rotateWidth size).setWidth 16) 0
      subs64 16 16 (hostReg .rcx)
      pure 16
    else pure (hostReg .rcx)
  | _ => unsupported inst.op

def liftRotate (inst : Inst) (rol : Bool) : LiftM Unit := do
  let dst ← operand inst.operand0
  let amt ← operand inst.operand1
  match dst with
  | .reg rd size => do
    let amtReg ← rotateAmount inst size rol amt
    rorv64 (hostReg rd) (hostReg rd) amtReg
    maskB4 size (hostReg rd)
  | _ => unsupported inst.op

/-- `CLZ rd, rn`. -/
def emitClz (rd rn : Reg) : LiftM Unit := rawWord (regs2Word 0xDAC01000#32 rn rd)

/-- `RBIT rd, rn`. -/
def emitRbit (rd rn : Reg) : LiftM Unit := rawWord (regs2Word 0xDAC00000#32 rn rd)

def liftBitscan (inst : Inst) (reverse : Bool) : LiftM Unit := do
  let dst ← operand inst.operand0
  let src ← operand inst.operand1
  match dst with
  | .reg r size => do
    operandIntoX17 inst src
    maskB4 size 17
    if reverse then do
      emitClz (hostReg r) 17
      loadConst64 16 (if size = .b8 then 63 else 31)
      subs64 (hostReg r) 16 (hostReg r)
    else do
      emitRbit (hostReg r) 17
      emitClz (hostReg r) (hostReg r)
    maskB4 size (hostReg r)
  | _ => unsupported inst.op

def liftBswap (inst : Inst) : LiftM Unit := do
  let dst ← operand inst.operand0
  match dst with
  | .reg r .b8 => revX (hostReg r) (hostReg r)
  | .reg r .b4 => revW (hostReg r) (hostReg r)
  | _ => unsupported .bswap

/-! ### Conditional -/

def liftCmov (inst : Inst) (cond : Cond) : LiftM Unit := do
  let dst ← operand inst.operand0
  let src ← operand inst.operand1
  match dst, src with
  | .reg rd _, .reg rs _ => do
    let c ← EmitM.okOr (condX86ToA64 cond) (.unsupported inst.op)
    csel64 (hostReg rd) (hostReg rs) (hostReg rd) c
  | _, _ => unsupported inst.op

def liftSet (inst : Inst) (cond : Cond) : LiftM Unit := do
  let dst ← operand inst.operand0
  match dst with
  | .reg rd _ => do
    let c ← EmitM.okOr (condX86ToA64 cond) (.unsupported inst.op)
    cset64 (hostReg rd) c
  | _ => unsupported inst.op

/-! ### Exchanges -/

def xchgMem (inst : Inst) (rr : GpReg) (m : Operand) : LiftM Unit := do
  let leftover ← loadOperand m inst m.memSize
  storeSized (hostReg rr) 16 leftover m.memSize
  mov64 (hostReg rr) 17

def liftXchg (inst : Inst) : LiftM Unit := do
  let a ← operand inst.operand0
  let b ← operand inst.operand1
  match a, b with
  | .reg ra _, .reg rb _ =>
    if ra = rb then pure ()
    else do
      mov64 16 (hostReg ra)
      mov64 (hostReg ra) (hostReg rb)
      mov64 (hostReg rb) 16
  | .reg rr _, .mem m => xchgMem inst rr (.mem m)
  | .reg rr _, .ripRel d s => xchgMem inst rr (.ripRel d s)
  | .mem m, .reg rr _ => xchgMem inst rr (.mem m)
  | .ripRel d s, .reg rr _ => xchgMem inst rr (.ripRel d s)
  | _, _ => unsupported .xchg

/-- `CMPXCHG` once the old value is in `X17`: `store` writes the source to the destination. -/
def cmpxchgTail (size : OpSize) (store : LiftM Unit) : LiftM Unit := do
  cmp64 (hostReg .rax) 17
  let notEq ← makeLabel
  bCond .ne notEq
  store
  let fin ← makeLabel
  b fin
  bindLabel notEq
  mov64 (hostReg .rax) 17
  maskB4 size (hostReg .rax)
  bindLabel fin

/-- `CMPXCHG` with a memory destination. -/
def cmpxchgMem (inst : Inst) (m : Operand) (rs : GpReg) (size : OpSize) : LiftM Unit := do
  let leftover ← loadOperand m inst m.memSize
  cmpxchgTail size (storeSized (hostReg rs) 16 leftover m.memSize)

def liftCmpxchg (inst : Inst) : LiftM Unit := do
  let dst ← operand inst.operand0
  let src ← operand inst.operand1
  match src with
  | .reg rs size =>
    match dst with
    | .reg rd _ => do
      mov64 17 (hostReg rd)
      cmpxchgTail size do
        mov64 (hostReg rd) (hostReg rs)
        maskB4 size (hostReg rd)
    | .mem m => cmpxchgMem inst (.mem m) rs size
    | .ripRel d s => cmpxchgMem inst (.ripRel d s) rs size
    | _ => unsupported .cmpxchg
  | _ => unsupported .cmpxchg

/-- `XADD` with a memory destination: the old value is kept on the host stack. -/
def xaddMem (inst : Inst) (m : Operand) (rs : GpReg) (size : OpSize) : LiftM Unit := do
  let leftover ← loadOperand m inst m.memSize
  stp64Pre 17 31 31 (-16)
  emitArithRr .add 17 17 (hostReg rs) size
  storeSized 17 16 leftover m.memSize
  ldp64Post (hostReg rs) 31 31 16
  maskB4 size (hostReg rs)

def liftXadd (inst : Inst) : LiftM Unit := do
  let dst ← operand inst.operand0
  let src ← operand inst.operand1
  match src with
  | .reg rs size =>
    match dst with
    | .reg rd _ => do
      mov64 17 (hostReg rd)
      emitArithRr .add (hostReg rd) (hostReg rd) (hostReg rs) size
      mov64 (hostReg rs) 17
      maskB4 size (hostReg rs)
    | .mem m => xaddMem inst (.mem m) rs size
    | .ripRel d s => xaddMem inst (.ripRel d s) rs size
    | _ => unsupported .xadd
  | _ => unsupported .xadd

/-! ### The guest stack and calls -/

def liftPush (inst : Inst) : LiftM Unit := do
  let src ← operand inst.operand0
  sub64Imm 19 19 8
  match src with
  | .reg rs _ => str64 (hostReg rs) 19 0
  | .imm imm _ => do
    loadConst64 16 imm
    str64 16 19 0
  | _ => unsupported .push

def liftPop (inst : Inst) : LiftM Unit := do
  let dst ← operand inst.operand0
  match dst with
  | .reg rd _ => do
    ldr64 (hostReg rd) 19 0
    add64Imm 19 19 8
  | _ => unsupported .pop

def liftLeave : LiftM Unit := do
  mov64 19 (hostReg .rbp)
  ldr64 (hostReg .rbp) 19 0
  add64Imm 19 19 8

/-- A 32-bit call: four stack arguments into the argument registers. -/
def emitCall32 : LiftM Unit := do
  ldr32 0 19 4
  ldr32 1 19 8
  ldr32 2 19 12
  ldr32 3 19 16
  stp64Pre 29 30 31 (-16)
  blr 16
  ldp64Post 29 30 31 16

/-- A 64-bit call: save the guest's non-volatile registers, move the arguments, call, restore. -/
def emitCall64 : LiftM Unit := do
  stp64Pre 3 5 31 (-16)
  stp64Pre 6 7 31 (-16)
  stp64Pre 12 13 31 (-16)
  stp64Pre 14 15 31 (-16)
  mov64 0 1
  mov64 1 2
  mov64 2 8
  mov64 3 9
  ldr64 4 19 0x20
  ldr64 5 19 0x28
  ldr64 6 19 0x30
  ldr64 7 19 0x38
  stp64Pre 29 30 31 (-16)
  blr 16
  ldp64Post 29 30 31 16
  ldp64Post 14 15 31 16
  ldp64Post 12 13 31 16
  ldp64Post 6 7 31 16
  ldp64Post 3 5 31 16

def liftCallIndirect (legacy32 : Bool) (inst : Inst) : LiftM Unit := do
  let target ← operand inst.operand0
  match target with
  | .reg r _ => do
    mov64 16 (hostReg r)
    emitCall64
  | _ => do
    let leftover ← addrIntoXtmp target inst 16
    if legacy32 then do
      ldr32 16 16 leftover
      emitCall32
    else do
      ldr64 16 16 leftover
      emitCall64

/-! ### String loops -/

/-- One element of `STOS` or `MOVS`, by its size in bytes. -/
def emitRepElement (size : BitVec 32) (isStos : Bool) : LiftM Unit :=
  match isStos, size.toNat with
  | true, 1 => strb 0 7 0
  | true, 2 => strh 0 7 0
  | true, 4 => str32 0 7 0
  | true, _ => str64 0 7 0
  | false, 1 => do
    ldrb 16 6 0
    strb 16 7 0
  | false, 2 => do
    ldrh 16 6 0
    strh 16 7 0
  | false, 4 => do
    ldr32 16 6 0
    str32 16 7 0
  | false, _ => do
    ldr64 16 6 0
    str64 16 7 0

def emitRepLoop (size : BitVec 32) (rep isStos : Bool) : LiftM Unit :=
  if size ≠ 1 ∧ size ≠ 2 ∧ size ≠ 4 ∧ size ≠ 8 then unsupported (if isStos then .stos else .movs)
  else do
    let loopTop ← makeLabel
    let done ← makeLabel
    bindLabel loopTop
    if rep then cbz64 1 done else pure ()
    emitRepElement size isStos
    if isStos then pure () else add64Imm 6 6 size
    add64Imm 7 7 size
    if rep then do
      sub64Imm 1 1 1
      b loopTop
      bindLabel done
    else pure ()

/-- `REP MOVS` and `REP STOS`: the element size and the repeat flag are immediates. -/
def liftString (inst : Inst) (isStos : Bool) : LiftM Unit :=
  match inst.operand0 with
  | some (.imm n _) =>
    let rep := match inst.operand1 with
      | some (.imm r _) => r == 1
      | _ => false
    emitRepLoop (n.setWidth 32) rep isStos
  | _ => EmitM.fail .badOperands

def liftMovs (inst : Inst) : LiftM Unit := liftString inst false
def liftStos (inst : Inst) : LiftM Unit := liftString inst true

/-! ### Identification and time -/

def liftCpuid : LiftM Unit := do
  let leaf1Label ← makeLabel
  let zeroLabel ← makeLabel
  let endLabel ← makeLabel
  cmp64Imm (hostReg .rax) 0
  bCond .ne leaf1Label
  loadConst64 (hostReg .rax) 7
  loadConst64 (hostReg .rbx) 0x756e6547
  loadConst64 (hostReg .rdx) 0x49656e69
  loadConst64 (hostReg .rcx) 0x6c65746e
  b endLabel
  bindLabel leaf1Label
  cmp64Imm (hostReg .rax) 1
  bCond .ne zeroLabel
  loadConst64 (hostReg .rax) 0x000106A9
  loadConst64 (hostReg .rbx) 0x00010800
  loadConst64 (hostReg .rcx) 0x00982201
  loadConst64 (hostReg .rdx) 0x07808111
  b endLabel
  bindLabel zeroLabel
  movz64 (hostReg .rax) 0 0
  movz64 (hostReg .rbx) 0 0
  movz64 (hostReg .rcx) 0 0
  movz64 (hostReg .rdx) 0 0
  bindLabel endLabel

def liftRdtsc : LiftM Unit := do
  rawWord (0xD53BE040#32 ||| bitField 0 (hostReg .rax))
  emitUbfm64 (hostReg .rdx) (hostReg .rax) 32 63
  emitAndImmLo32 (hostReg .rax) (hostReg .rax)

end Quantum.Jit
