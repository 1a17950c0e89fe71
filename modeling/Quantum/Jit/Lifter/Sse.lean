import Quantum.Jit.Lifter.Basic

/-!
# The lifter: SSE instructions

XMM registers live in the guest context, at fixed offsets from `X28` (`xmmCtxOffset`).  Each
instruction loads its operands into the scratch vectors `V16` and `V17` (or into `X16`), computes,
and stores the result back to the context.  A memory operand's address goes through `X17`.
-/

namespace Quantum.Jit

open A64 (Word Reg)
open EmitM

inductive PackedLogic where
  | xor | and | or
  deriving Repr, DecidableEq

inductive PackedArith where
  | addQ | subQ | addD | subD | addW | subW | addB | subB
  deriving Repr, DecidableEq

inductive FpPackedOp where
  | add | sub | mul | div
  deriving Repr, DecidableEq

inductive PShift where
  | sll | srl | sra
  deriving Repr, DecidableEq

inductive FpOp where
  | add | sub | mul | div | min | max
  deriving Repr, DecidableEq

/-- Byte offset of XMM register `n` in the guest context. -/
def xmmCtxOffset (n : BitVec 8) : BitVec 32 :=
  160 + n.setWidth 32 * 16

/-! ### Moves -/

/-- Store the low 64 bits (`B8`) or 32 bits (`B4`) of `r` to XMM register `d` and clear the rest. -/
def storeXmmZeroing (op : Op) (size : OpSize) (r : Reg) (d : BitVec 8) : LiftM Unit :=
  match size with
  | .b8 => do
    str64 r 28 (xmmCtxOffset d)
    str64 31 28 (xmmCtxOffset d + 8)
  | .b4 => do
    str32 r 28 (xmmCtxOffset d)
    str32 31 28 (xmmCtxOffset d + 4)
    str64 31 28 (xmmCtxOffset d + 8)
  | _ => unsupported op

/-- Load 64 or 32 bits into `X16` from memory at `X17`, and store them to an XMM register. -/
def movqFromMem (inst : Inst) (size : OpSize) (d : BitVec 8) (m : Operand) : LiftM Unit := do
  let leftover ← addrIntoXtmp m inst 17
  match size with
  | .b8 => ldr64 16 17 leftover
  | .b4 => ldr32 16 17 leftover
  | _ => unsupported .movqXmm
  storeXmmZeroing .movqXmm size 16 d

/-- Store the low 64 or 32 bits of an XMM register to memory at `X17`. -/
def movqToMem (inst : Inst) (op : Op) (size : OpSize) (m : Operand) (s : BitVec 8) :
    LiftM Unit := do
  let leftover ← addrIntoXtmp m inst 17
  match size with
  | .b8 => do
    ldr64 16 28 (xmmCtxOffset s)
    str64 16 17 leftover
  | .b4 => do
    ldr32 16 28 (xmmCtxOffset s)
    str32 16 17 leftover
  | _ => unsupported op

/-- The width of a `MOVQ`: that of the XMM operand, the destination first. -/
def movqSize (dst src : Operand) : LiftM OpSize :=
  match dst, src with
  | .xmmReg _ s, _ => pure s
  | _, .xmmReg _ s => pure s
  | _, _ => unsupported .movqXmm

def liftMovqXmm (inst : Inst) : LiftM Unit := do
  let dst ← operand inst.operand0
  let src ← operand inst.operand1
  let size ← movqSize dst src
  match dst, src with
  | .xmmReg d _, .xmmReg s _ => do
    ldrD 16 28 (xmmCtxOffset s)
    strD 16 28 (xmmCtxOffset d)
    str64 31 28 (xmmCtxOffset d + 8)
  | .xmmReg d _, .reg rs _ => storeXmmZeroing .movqXmm size (hostReg rs) d
  | .xmmReg d _, .mem m => movqFromMem inst size d (.mem m)
  | .xmmReg d _, .ripRel o s => movqFromMem inst size d (.ripRel o s)
  | .reg rd _, .xmmReg s _ =>
    match size with
    | .b8 => ldr64 (hostReg rd) 28 (xmmCtxOffset s)
    | .b4 => ldr32 (hostReg rd) 28 (xmmCtxOffset s)
    | _ => unsupported .movqXmm
  | .mem m, .xmmReg s _ => movqToMem inst .movqXmm size (.mem m) s
  | .ripRel o z, .xmmReg s _ => movqToMem inst .movqXmm size (.ripRel o z) s
  | _, _ => unsupported .movqXmm

/-- `MOVSD` (`B8`) and `MOVSS` (`B4`) from memory: clear the rest of the register. -/
def movScalarFromMem (inst : Inst) (op : Op) (size : OpSize) (d : BitVec 8) (m : Operand) :
    LiftM Unit := do
  let leftover ← addrIntoXtmp m inst 17
  loadSized 16 17 leftover size
  storeXmmZeroing op size 16 d

/-- `MOVSD` (`B8`) and `MOVSS` (`B4`); between registers the rest of the register is kept. -/
def liftMovScalar (inst : Inst) (op : Op) (size : OpSize) : LiftM Unit := do
  let dst ← operand inst.operand0
  let src ← operand inst.operand1
  match dst, src with
  | .xmmReg d _, .xmmReg s _ => do
    loadSized 16 28 (xmmCtxOffset s) size
    storeSized 16 28 (xmmCtxOffset d) size
  | .xmmReg d _, .mem m => movScalarFromMem inst op size d (.mem m)
  | .xmmReg d _, .ripRel o z => movScalarFromMem inst op size d (.ripRel o z)
  | .mem m, .xmmReg s _ => movqToMem inst op size (.mem m) s
  | .ripRel o z, .xmmReg s _ => movqToMem inst op size (.ripRel o z) s
  | _, _ => unsupported op

def liftMovsdXmm (inst : Inst) : LiftM Unit := liftMovScalar inst .movsdXmm .b8
def liftMovssXmm (inst : Inst) : LiftM Unit := liftMovScalar inst .movssXmm .b4

/-- Load an XMM register or a 128-bit memory operand into vector `v`. -/
def loadQ (inst : Inst) (op : Op) (v : Reg) (src : Operand) : LiftM Unit :=
  match src with
  | .xmmReg s _ => ldrQ v 28 (xmmCtxOffset s)
  | .mem m => do
    let leftover ← addrIntoXtmp (.mem m) inst 17
    ldrQ v 17 leftover
  | .ripRel o z => do
    let leftover ← addrIntoXtmp (.ripRel o z) inst 17
    ldrQ v 17 leftover
  | _ => unsupported op

/-- Store `V16` to a 128-bit memory operand. -/
def movdqToMem (inst : Inst) (m : Operand) (s : BitVec 8) : LiftM Unit := do
  let leftover ← addrIntoXtmp m inst 17
  ldrQ 16 28 (xmmCtxOffset s)
  strQ 16 17 leftover

def liftMovdqXmm (inst : Inst) : LiftM Unit := do
  let dst ← operand inst.operand0
  let src ← operand inst.operand1
  match dst, src with
  | .xmmReg d _, _ => do
    loadQ inst .movdqXmm 16 src
    strQ 16 28 (xmmCtxOffset d)
  | .mem m, .xmmReg s _ => movdqToMem inst (.mem m) s
  | .ripRel o z, .xmmReg s _ => movdqToMem inst (.ripRel o z) s
  | _, _ => unsupported .movdqXmm

/-! ### Packed operations on two vectors -/

/-- `xmm_dst = xmm_dst op src`: both operands in `V16` and `V17`, `emit`, store back. -/
def packedOp (inst : Inst) (op : Op) (emit : LiftM Unit) : LiftM Unit := do
  let dst ← operand inst.operand0
  let src ← operand inst.operand1
  match dst with
  | .xmmReg d _ => do
    ldrQ 16 28 (xmmCtxOffset d)
    loadQ inst op 17 src
    emit
    strQ 16 28 (xmmCtxOffset d)
  | _ => unsupported op

def liftPackedLogical (inst : Inst) (op : PackedLogic) : LiftM Unit :=
  packedOp inst inst.op <|
    match op with
    | .xor => eorV16b 16 16 17
    | .and => andV16b 16 16 17
    | .or => orrV16b 16 16 17

def liftPackedArith (inst : Inst) (op : PackedArith) : LiftM Unit :=
  packedOp inst inst.op <|
    match op with
    | .addQ => addV2d 16 16 17
    | .subQ => subV2d 16 16 17
    | .addD => addV4s 16 16 17
    | .subD => subV4s 16 16 17
    | .addW => addV8h 16 16 17
    | .subW => subV8h 16 16 17
    | .addB => addV16b 16 16 17
    | .subB => subV16b 16 16 17

def liftPcmpeq (inst : Inst) (lane : OpSize) : LiftM Unit :=
  packedOp inst inst.op <|
    match lane with
    | .b1 => cmeqV16b 16 16 17
    | .b2 => cmeqV8h 16 16 17
    | .b4 => cmeqV4s 16 16 17
    | .b8 => cmeqV2d 16 16 17

def liftPunpck (inst : Inst) (lane : OpSize) (high : Bool) : LiftM Unit :=
  packedOp inst inst.op <|
    match high, lane with
    | false, .b1 => zip1V16b 16 16 17
    | false, .b2 => zip1V8h 16 16 17
    | false, .b4 => zip1V4s 16 16 17
    | false, .b8 => zip1V2d 16 16 17
    | true, .b1 => zip2V16b 16 16 17
    | true, .b2 => zip2V8h 16 16 17
    | true, .b4 => zip2V4s 16 16 17
    | true, .b8 => zip2V2d 16 16 17

def liftPmullw (inst : Inst) : LiftM Unit :=
  packedOp inst .pmullW (mulV8h 16 16 17)

/-- The lane width of the packed floating-point operation is that of the destination operand. -/
def packedFpSize (inst : Inst) : OpSize :=
  match inst.operand0 with
  | some o => o.memSize
  | none => .b1

def liftPackedFp (inst : Inst) (op : FpPackedOp) : LiftM Unit :=
  packedOp inst inst.op <|
    match op, packedFpSize inst with
    | .add, .b4 => faddV4s 16 16 17
    | .add, .b8 => faddV2d 16 16 17
    | .sub, .b4 => fsubV4s 16 16 17
    | .sub, .b8 => fsubV2d 16 16 17
    | .mul, .b4 => fmulV4s 16 16 17
    | .mul, .b8 => fmulV2d 16 16 17
    | .div, .b4 => fdivV4s 16 16 17
    | .div, .b8 => fdivV2d 16 16 17
    | _, _ => unsupported inst.op

/-! ### Scalar floating point -/

/-- Load the low double (`B8`) or single (`B4`) at an address. -/
def loadScalar (op : Op) (v rn : Reg) (offset : BitVec 32) : OpSize → LiftM Unit
  | .b8 => ldrD v rn offset
  | .b4 => ldrS v rn offset
  | _ => unsupported op

def storeScalar (op : Op) (v : Reg) (d : BitVec 8) : OpSize → LiftM Unit
  | .b8 => strD v 28 (xmmCtxOffset d)
  | .b4 => strS v 28 (xmmCtxOffset d)
  | _ => unsupported op

/-- Load a scalar from an XMM register or from memory into vector `v`. -/
def loadScalarOperand (inst : Inst) (op : Op) (v : Reg) (src : Operand) (size : OpSize) :
    LiftM Unit :=
  match src with
  | .xmmReg s _ => loadScalar op v 28 (xmmCtxOffset s) size
  | .mem m => do
    let leftover ← addrIntoXtmp (.mem m) inst 17
    loadScalar op v 17 leftover size
  | .ripRel o z => do
    let leftover ← addrIntoXtmp (.ripRel o z) inst 17
    loadScalar op v 17 leftover size
  | _ => unsupported op

def emitScalarFp (inst : Inst) (op : FpOp) (size : OpSize) : LiftM Unit :=
  match op, size with
  | .add, .b8 => faddD 16 16 17
  | .sub, .b8 => fsubD 16 16 17
  | .mul, .b8 => fmulD 16 16 17
  | .div, .b8 => fdivD 16 16 17
  | .add, .b4 => faddS 16 16 17
  | .sub, .b4 => fsubS 16 16 17
  | .mul, .b4 => fmulS 16 16 17
  | .div, .b4 => fdivS 16 16 17
  | .min, .b8 => fminD 16 16 17
  | .min, .b4 => fminS 16 16 17
  | .max, .b8 => fmaxD 16 16 17
  | .max, .b4 => fmaxS 16 16 17
  | _, _ => unsupported inst.op

def liftScalarFp (inst : Inst) (op : FpOp) : LiftM Unit := do
  let dst ← operand inst.operand0
  let src ← operand inst.operand1
  match dst with
  | .xmmReg d size => do
    loadScalar inst.op 16 28 (xmmCtxOffset d) size
    loadScalarOperand inst inst.op 17 src size
    emitScalarFp inst op size
    storeScalar inst.op 16 d size
  | _ => unsupported inst.op

def liftSqrtScalar (inst : Inst) : LiftM Unit := do
  let dst ← operand inst.operand0
  let src ← operand inst.operand1
  match dst with
  | .xmmReg d size => do
    loadScalarOperand inst inst.op 16 src size
    match size with
    | .b8 => fsqrtD 16 16
    | .b4 => fsqrtS 16 16
    | _ => unsupported inst.op
    storeScalar inst.op 16 d size
  | _ => unsupported inst.op

def liftUcomis (inst : Inst) : LiftM Unit := do
  let a ← operand inst.operand0
  let b ← operand inst.operand1
  match a with
  | .xmmReg d size => do
    loadScalar .ucomisScalar 16 28 (xmmCtxOffset d) size
    loadScalarOperand inst .ucomisScalar 17 b size
    match size with
    | .b8 => fcmpD 16 17
    | .b4 => fcmpS 16 17
    | _ => unsupported .ucomisScalar
  | _ => unsupported .ucomisScalar

/-! ### Conversions -/

/-- The integer source of a conversion into `X17`; its width. -/
def cvtIntSource (inst : Inst) (src : Operand) : LiftM OpSize :=
  match src with
  | .reg rs s => do
    mov64 17 (hostReg rs)
    pure s
  | .mem m => do
    let _ ← loadOperand (.mem m) inst m.size
    pure m.size
  | .ripRel o s => do
    let _ ← loadOperand (.ripRel o s) inst s
    pure s
  | _ => unsupported inst.op

def liftCvtIntToScalar (inst : Inst) : LiftM Unit := do
  let dst ← operand inst.operand0
  let src ← operand inst.operand1
  match dst with
  | .xmmReg d fpSize => do
    let intSize ← cvtIntSource inst src
    match fpSize, intSize with
    | .b4, .b4 => scvtfSW 16 17
    | .b4, .b8 => scvtfSX 16 17
    | .b8, .b4 => scvtfDW 16 17
    | .b8, .b8 => scvtfDX 16 17
    | _, _ => unsupported inst.op
    storeScalar inst.op 16 d fpSize
  | _ => unsupported inst.op

/-- The floating-point source of a conversion into `V16`; its width. -/
def cvtFpSource (inst : Inst) (src : Operand) : LiftM OpSize :=
  match src with
  | .xmmReg s sz => do
    loadScalar inst.op 16 28 (xmmCtxOffset s) sz
    pure sz
  | .mem m => do
    let leftover ← addrIntoXtmp (.mem m) inst 17
    loadScalar inst.op 16 17 leftover m.size
    pure m.size
  | .ripRel o s => do
    let leftover ← addrIntoXtmp (.ripRel o s) inst 17
    loadScalar inst.op 16 17 leftover s
    pure s
  | _ => unsupported inst.op

def liftCvtScalarToInt (inst : Inst) (truncate : Bool) : LiftM Unit := do
  let dst ← operand inst.operand0
  let src ← operand inst.operand1
  match dst with
  | .reg r intSize => do
    let fpSize ← cvtFpSource inst src
    match truncate, fpSize, intSize with
    | true, .b4, .b4 => fcvtzsWS (hostReg r) 16
    | true, .b4, .b8 => fcvtzsXS (hostReg r) 16
    | true, .b8, .b4 => fcvtzsWD (hostReg r) 16
    | true, .b8, .b8 => fcvtzsXD (hostReg r) 16
    | false, .b4, .b4 => fcvtnsWS (hostReg r) 16
    | false, .b4, .b8 => fcvtnsXS (hostReg r) 16
    | false, .b8, .b4 => fcvtnsWD (hostReg r) 16
    | false, .b8, .b8 => fcvtnsXD (hostReg r) 16
    | _, _, _ => unsupported inst.op
  | _ => unsupported inst.op

/-- `CVTSS2SD` (`up`) and `CVTSD2SS`. -/
def liftCvtPrecision (inst : Inst) (up : Bool) : LiftM Unit := do
  let dst ← operand inst.operand0
  let src ← operand inst.operand1
  match dst with
  | .xmmReg d _ => do
    loadScalarOperand inst inst.op 16 src (if up then .b4 else .b8)
    if up then fcvtDS 16 16 else fcvtSD 16 16
    storeScalar inst.op 16 d (if up then .b8 else .b4)
  | _ => unsupported inst.op

/-! ### Shifts and shuffles by immediate -/

/-- The bits of a shifted lane. -/
def laneBits (op : Op) : OpSize → LiftM (BitVec 32)
  | .b2 => pure 16
  | .b4 => pure 32
  | .b8 => pure 64
  | .b1 => unsupported op

/-- A shift by an amount below the lane width. -/
def emitPshift (inst : Inst) (op : PShift) (lane : OpSize) (shift : BitVec 32) : LiftM Unit :=
  match op, lane with
  | .sll, .b2 => shlV8h 16 16 shift
  | .sll, .b4 => shlV4s 16 16 shift
  | .sll, .b8 => shlV2d 16 16 shift
  | .srl, .b2 => ushrV8h 16 16 shift
  | .srl, .b4 => ushrV4s 16 16 shift
  | .srl, .b8 => ushrV2d 16 16 shift
  | .sra, .b2 => sshrV8h 16 16 shift
  | .sra, .b4 => sshrV4s 16 16 shift
  | _, _ => unsupported inst.op

/-- A shift by the lane width or more: the sign everywhere, or zero. -/
def emitPshiftAll (inst : Inst) (op : PShift) (lane : OpSize) (bits : BitVec 32) : LiftM Unit :=
  match op, lane with
  | .sra, .b2 => sshrV8h 16 16 (bits - 1)
  | .sra, .b4 => sshrV4s 16 16 (bits - 1)
  | .sra, _ => unsupported inst.op
  | _, _ => eorV16b 16 16 16

def liftPshiftImm (inst : Inst) (lane : OpSize) (op : PShift) : LiftM Unit := do
  let dst ← operand inst.operand0
  let src ← operand inst.operand1
  match dst, src with
  | .xmmReg d _, .imm v _ => do
    let bits ← laneBits inst.op lane
    let shift : BitVec 32 := v.setWidth 32
    ldrQ 16 28 (xmmCtxOffset d)
    if bits ≤ shift then emitPshiftAll inst op lane bits
    else if shift = 0 then pure ()
    else emitPshift inst op lane shift
    strQ 16 28 (xmmCtxOffset d)
  | _, _ => unsupported inst.op

def liftPshiftDq (inst : Inst) (left : Bool) : LiftM Unit := do
  let dst ← operand inst.operand0
  match inst.operand1, dst with
  | some (.imm v _), .xmmReg d _ => do
    let imm : BitVec 32 := v.setWidth 32
    ldrQ 16 28 (xmmCtxOffset d)
    eorV16b 17 17 17
    if imm = 0 then pure ()
    else if 16 ≤ imm then eorV16b 16 16 16
    else if left then extV16b 16 17 16 (16 - imm)
    else extV16b 16 16 17 imm
    strQ 16 28 (xmmCtxOffset d)
  | _, _ => unsupported inst.op

/-- Copy the lanes that the shuffle moves. -/
def emitShuffle (imm : BitVec 8) : List (BitVec 2) → LiftM Unit
  | [] => pure ()
  | dst :: lanes => do
    let src := imm.extractLsb' (2 * dst.toNat) 2
    if src ≠ dst then insVS 16 dst 17 src else pure ()
    emitShuffle imm lanes

def liftPshufd (inst : Inst) : LiftM Unit := do
  let dst ← operand inst.operand0
  let src ← operand inst.operand1
  match inst.operand2, dst with
  | some (.imm v _), .xmmReg d _ => do
    loadQ inst .pshufD 17 src
    orrV16b 16 17 17
    emitShuffle (v.setWidth 8) [0, 1, 2, 3]
    strQ 16 28 (xmmCtxOffset d)
  | _, _ => unsupported .pshufD

def liftPmovmskb (inst : Inst) : LiftM Unit := do
  let dst ← operand inst.operand0
  let src ← operand inst.operand1
  match dst, src with
  | .reg r _, .xmmReg s _ => do
    loadConst64 16 0x8040201008040201
    insVDGpr 17 0 16
    insVDGpr 17 1 16
    ldrQ 16 28 (xmmCtxOffset s)
    sshrV16b 16 16 7
    andV16b 16 16 17
    extV16b 18 16 16 8
    addvBV8b 16 16
    addvBV8b 18 18
    umovWB (hostReg r) 16 0
    umovWB 17 18 0
    bfiW (hostReg r) 17 8 8
  | _, _ => unsupported .pmovmskB

end Quantum.Jit
