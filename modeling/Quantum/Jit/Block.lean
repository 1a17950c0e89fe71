import Quantum.Jit.Decoder
import Quantum.Jit.Lifter

/-!
# Blocks

`translate_for_dispatcher` of `block.rs`: decode up to the first control transfer, emit the prologue,
the lifted body and the exit of the terminator, and resolve the labels.  A block is entered with the
address of the guest context in `X0`; it reloads the guest registers from the context, runs, spills
them back, and returns the next guest address in `X0`.

`translate_with_stack` translates a piece of code that stands on its own: it decodes up to an
instruction that the caller's predicate accepts, gives every instruction a label, and lowers `JMP` and
`Jcc` to branches between these labels.
-/

namespace Quantum.Jit

open A64 (Word Reg)
open EmitM

inductive BlockError where
  | decode (e : DecodeError)
  | lift (e : LifterError)
  /-- A lift with its address, operation and bytes. -/
  | liftAt (rip : BitVec 64) (op : Op) (bytes : List Byte) (err : LifterError)
  | targetOutOfBlock (branchRip targetRip : BitVec 64)
  | unsupportedCondition
  | badOperand
  | finish (e : FinishError)
  deriving Repr, DecidableEq

structure Block where
  /-- The words of the host code. -/
  code : List Word
  guestLen : Nat
  /-- Byte offset and target of every placeholder that the dispatcher may rewrite. -/
  chainPatches : List (BitVec 32 × BitVec 64)
  deriving Repr, DecidableEq

/-- The bytes that are installed in the code cache. -/
def Block.hostBytes (b : Block) : List Byte :=
  b.code.flatMap Emitter.leBytes

/-- What a block returns to stop the dispatcher. -/
def STOP_SENTINEL : BitVec 64 := 0xDEADDEADDEADDEAD#64

/-- The byte offset of a block after its prologue. -/
def DISPATCHER_HOT_ENTRY_OFFSET : Nat := 16

inductive IsaMode where
  | long | legacy32
  deriving Repr, DecidableEq

/-! ### Decoding -/

def Op.isTerminator : Op → Bool
  | .jmp | .jcc _ | .ret | .retImm | .ud2 | .jmpIndirect | .call => true
  | _ => false

/-- The instructions up to the first terminator or the end of the bytes: those before the last, the
last, and the bytes that are left.  Every instruction has at least one byte, so `bs.length` rounds are
enough. -/
def decodeLoop (longMode : Bool) : Nat → BitVec 64 → List Byte →
    Except (Fault DecodeError) (List Inst × Inst × List Byte)
  | 0, _, _ => .error (.panic "more instructions than bytes")
  | fuel + 1, rip, bs =>
    match decodeNext longMode rip bs with
    | .error x => .error x
    | .ok (inst, rest) =>
      if inst.op.isTerminator || rest.isEmpty then .ok ([], inst, rest)
      else
        match decodeLoop longMode fuel (rip + BitVec.ofNat 64 (bs.length - rest.length)) rest with
        | .error x => .error x
        | .ok (body, last, rest') => .ok (inst :: body, last, rest')

/-! ### Prologue and exits -/

/-- Load the guest registers from the context in `X28`. -/
def emitCtxToRegs {ε : Type} : List GpReg → EmitM ε Unit
  | [] => pure ()
  | r :: rs => do
    ldr64 (hostReg r) 28 (BitVec.ofNat 32 (8 * r.index))
    emitCtxToRegs rs

/-- Spill the guest registers to the context in `X28`. -/
def emitRegsToCtx {ε : Type} : List GpReg → EmitM ε Unit
  | [] => pure ()
  | r :: rs => do
    str64 (hostReg r) 28 (BitVec.ofNat 32 (8 * r.index))
    emitRegsToCtx rs

/-- Push the host frame and take the context. -/
def emitPrologue {ε : Type} : EmitM ε Unit := do
  stp64Pre 29 30 31 (-16)
  stp64Pre 19 28 31 (-16)
  stp64Pre 24 25 31 (-16)
  mov64 28 0
  emitCtxToRegs GpReg.all
  ldr64 24 28 144
  ldr64 25 28 152

/-- Pop the host frame and return. -/
def emitHostEpilogue {ε : Type} : EmitM ε Unit := do
  ldp64Post 24 25 31 16
  ldp64Post 19 28 31 16
  ldp64Post 29 30 31 16
  ret

/-- Exit with a constant next address. -/
def emitEpilogueConstRip {ε : Type} (nextRip : BitVec 64) : EmitM ε Unit := do
  emitRegsToCtx GpReg.all
  loadConst64 0 nextRip
  emitHostEpilogue

/-- Exit with the next address in `X16`. -/
def emitEpilogueX16 {ε : Type} : EmitM ε Unit := do
  emitRegsToCtx GpReg.all
  mov64 0 16
  emitHostEpilogue

/-- Exit with a constant next address that the dispatcher may replace by a branch: the offset of the
placeholder and its target. -/
def emitChainExit {ε : Type} (target : BitVec 64) : EmitM ε (BitVec 32 × BitVec 64) := do
  emitRegsToCtx GpReg.all
  let off ← byteLen
  rawWord 0x14000001#32
  loadConst64 0 target
  emitHostEpilogue
  pure (BitVec.ofNat 32 off, target)

/-- The immediate operand of a branch. -/
def branchRel (term : Inst) : EmitM BlockError (BitVec 64) :=
  match term.operand0 with
  | some (.imm rel _) => pure rel
  | _ => EmitM.fail .badOperand

/-- The target of an indirect jump into `X16`. -/
def emitIndirectTarget (term : Inst) : EmitM BlockError Unit := do
  let target ← EmitM.okOr term.operand0 .badOperand
  match target with
  | .reg r _ => mov64 16 (hostReg r)
  | .mem m => do
    let leftover ← mapErr .lift (addrIntoXtmp (.mem m) term 16)
    ldr64 16 16 leftover
  | .ripRel d s => do
    let leftover ← mapErr .lift (addrIntoXtmp (.ripRel d s) term 16)
    ldr64 16 16 leftover
  | _ => EmitM.fail .badOperand

/-- `RET` and `RET imm16`: pop the next address, and `extra` bytes. -/
def emitRet (extra : BitVec 32) : EmitM BlockError Unit := do
  ldr64 16 19 0
  add64Imm 19 19 (8 + extra)
  emitEpilogueX16

/-- The exit of a block; the result is its chain patches. -/
def emitTerminator (term : Inst) : EmitM BlockError (List (BitVec 32 × BitVec 64)) :=
  match term.op with
  | .ud2 => do
    emitEpilogueConstRip STOP_SENTINEL
    pure []
  | .retImm => do
    let extra ← branchRel term
    emitRet (extra.setWidth 32)
    pure []
  | .ret => do
    emitRet 0
    pure []
  | .jmp => do
    let rel ← branchRel term
    let patch ← emitChainExit (term.nextRip + rel)
    pure [patch]
  | .call => do
    let rel ← branchRel term
    sub64Imm 19 19 8
    loadConst64 16 term.nextRip
    str64 16 19 0
    emitEpilogueConstRip (term.nextRip + rel)
    pure []
  | .jcc cond => do
    let rel ← branchRel term
    let c ← EmitM.okOr (condX86ToA64 cond) .unsupportedCondition
    let takenLabel ← makeLabel
    bCond c takenLabel
    let fallthrough ← emitChainExit term.nextRip
    bindLabel takenLabel
    let taken ← emitChainExit (term.nextRip + rel)
    pure [fallthrough, taken]
  | .jmpIndirect => do
    emitIndirectTarget term
    emitEpilogueX16
    pure []
  | _ => do
    emitEpilogueConstRip STOP_SENTINEL
    pure []

/-! ### Translation -/

/-- Lift an instruction of the body; an error carries the instruction's place and bytes. -/
def emitBodyInst (bytes : List Byte) (startRip : BitVec 64) (legacy32 : Bool) (inst : Inst) :
    EmitM BlockError Unit :=
  let off := (inst.guestRip - startRip).toNat
  let raw := if off + inst.len.toNat ≤ bytes.length then (bytes.drop off).take inst.len.toNat else []
  mapErr (.liftAt inst.guestRip inst.op raw) (lift legacy32 inst)

def emitBody (bytes : List Byte) (startRip : BitVec 64) (legacy32 : Bool) :
    List Inst → EmitM BlockError Unit
  | [] => pure ()
  | inst :: insts => do
    emitBodyInst bytes startRip legacy32 inst
    emitBody bytes startRip legacy32 insts

def emitBlock (bytes : List Byte) (startRip : BitVec 64) (legacy32 : Bool) (body : List Inst)
    (term : Inst) : EmitM BlockError (List (BitVec 32 × BitVec 64)) := do
  emitPrologue
  emitBody bytes startRip legacy32 body
  emitTerminator term

/-- Resolve the labels. -/
def finishBlock (guestLen : Nat) :
    Except (Fault BlockError) (List (BitVec 32 × BitVec 64) × Emitter) →
    Except (Fault BlockError) Block
  | .error x => .error x
  | .ok (patches, e) =>
    match e.finish with
    | (.ok _, e') => .ok ⟨e'.code, guestLen, patches⟩
    | (.error x, _) => .error (.err (.finish x))

def translateForDispatcher (p : Profile) (bytes : List Byte) (startRip : BitVec 64)
    (mode : IsaMode) : Except (Fault BlockError) Block :=
  match decodeLoop (mode = .long) (bytes.length + 1) startRip bytes with
  | .error (.err e) => .error (.err (.decode e))
  | .error (.panic msg) => .error (.panic msg)
  | .ok (body, term, rest) =>
    finishBlock (bytes.length - rest.length)
      (emitBlock bytes startRip (mode = .legacy32) body term p Emitter.new)

/-! ### Standalone code -/

/-- The instructions up to the first that `isTerminator` accepts, or to the end of the bytes, and the
bytes that are left. -/
def decodeUntil (isTerminator : Op → Bool) : Nat → BitVec 64 → List Byte →
    Except (Fault DecodeError) (List Inst × List Byte)
  | 0, _, _ => .error (.panic "more instructions than bytes")
  | fuel + 1, rip, bs =>
    match decodeNext true rip bs with
    | .error x => .error x
    | .ok (inst, rest) =>
      if isTerminator inst.op || rest.isEmpty then .ok ([inst], rest)
      else
        match decodeUntil isTerminator fuel (rip + BitVec.ofNat 64 (bs.length - rest.length)) rest with
        | .error x => .error x
        | .ok (insts, rest') => .ok (inst :: insts, rest')

/-- Save `X19` with `X20` and load the top of the guest stack. -/
def emitGuestStack {ε : Type} (stackTop : Option (BitVec 64)) : EmitM ε Unit :=
  match stackTop with
  | some top => do
    stp64Pre 19 20 31 (-16)
    loadConst64 19 top
  | none => pure ()

/-- A label for the address of every instruction. -/
def makeLabels {ε : Type} : List Inst → EmitM ε (List (BitVec 64 × Label))
  | [] => pure []
  | inst :: insts => do
    let l ← makeLabel
    let ls ← makeLabels insts
    pure ((inst.guestRip, l) :: ls)

/-- The label of the first instruction at an address. -/
def findLabel (labels : List (BitVec 64 × Label)) (rip : BitVec 64) : Option Label :=
  (labels.find? fun q => q.1 == rip).map (·.2)

/-- Branches go to the label of their target; everything else is lifted. -/
def emitStandaloneInst (labels : List (BitVec 64 × Label)) (inst : Inst) : EmitM BlockError Unit :=
  match inst.op with
  | .jcc cond => do
    let rel ← branchRel inst
    let target ← EmitM.okOr (findLabel labels (inst.nextRip + rel))
      (.targetOutOfBlock inst.guestRip (inst.nextRip + rel))
    let c ← EmitM.okOr (condX86ToA64 cond) .unsupportedCondition
    bCond c target
  | .jmp => do
    let rel ← branchRel inst
    let target ← EmitM.okOr (findLabel labels (inst.nextRip + rel))
      (.targetOutOfBlock inst.guestRip (inst.nextRip + rel))
    b target
  | _ => mapErr .lift (lift false inst)

/-- Bind the label of each instruction and emit the instruction; `labels` are all of them. -/
def emitStandaloneBody (labels : List (BitVec 64 × Label)) :
    List Inst → List (BitVec 64 × Label) → EmitM BlockError Unit
  | inst :: insts, q :: qs => do
    bindLabel q.2
    emitStandaloneInst labels inst
    emitStandaloneBody labels insts qs
  | _, _ => pure ()

def emitStandalone (stackTop : Option (BitVec 64)) (insts : List Inst) :
    EmitM BlockError (List (BitVec 32 × BitVec 64)) := do
  emitGuestStack stackTop
  let labels ← makeLabels insts
  emitStandaloneBody labels insts labels
  pure []

def translateWithStack (p : Profile) (bytes : List Byte) (startRip : BitVec 64)
    (stackTop : Option (BitVec 64)) (isTerminator : Op → Bool) : Except (Fault BlockError) Block :=
  match decodeUntil isTerminator (bytes.length + 1) startRip bytes with
  | .error (.err e) => .error (.err (.decode e))
  | .error (.panic msg) => .error (.panic msg)
  | .ok (insts, rest) =>
    finishBlock (bytes.length - rest.length) (emitStandalone stackTop insts p Emitter.new)

end Quantum.Jit
