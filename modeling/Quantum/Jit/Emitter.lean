import Quantum.A64.Insn

/-!
# The A64 emitter

`emitter.rs`: a buffer of instruction words with labels and branch fixups, and one function per
instruction form, which writes one word.  A computation that emits code is an `EmitM`: it runs under
a build profile, on an emitter, and ends in a value and the new emitter, in an error of the caller's
error type, or in a panic.

Debug assertions (`debug_assert!`) are checked only in a profile that compiles them in; in the other
one the word is assembled from the arguments as they are, with the bits of a field that is too wide
falling into the fields above it, as the source's shifts and ORs do.
-/

namespace Quantum.Jit

open A64 (Word Reg)

/-- A build profile. -/
structure Profile where
  /-- Are debug assertions and overflow checks compiled in? -/
  debugAssertions : Bool
  deriving Repr, DecidableEq

/-- How a computation ends without a value. -/
inductive Fault (ε : Type) where
  | panic (msg : String)
  | err (e : ε)
  deriving Repr, DecidableEq

structure Label where
  id : Nat
  deriving Repr, DecidableEq

/-- Where the offset of a branch lies in its word. -/
inductive FixupKind where
  | branch26 | branch19 | branch14
  deriving Repr, DecidableEq

structure Fixup where
  wordIndex : Nat
  kind : FixupKind
  label : Nat
  deriving Repr, DecidableEq

structure Emitter where
  code : List Word
  /-- For each label the word index where it is bound. -/
  labels : List (Option Nat)
  fixups : List Fixup
  deriving Repr, DecidableEq

inductive FinishError where
  | unboundLabel (label : Nat)
  | branchOutOfRange
  deriving Repr, DecidableEq

namespace Emitter

def new : Emitter := ⟨[], [], []⟩

/-- The little-endian bytes of a word. -/
def leBytes (w : Word) : List (BitVec 8) :=
  [w.extractLsb' 0 8, w.extractLsb' 8 8, w.extractLsb' 16 8, w.extractLsb' 24 8]

def bytes (e : Emitter) : List (BitVec 8) :=
  e.code.flatMap leBytes

/-- The word with the offset `delta`, in words, in its offset field. -/
def patchBranch (base : Word) (kind : FixupKind) (delta : Int) : Except FinishError Word :=
  match kind with
  | .branch26 =>
    if -2 ^ 25 ≤ delta ∧ delta < 2 ^ 25 then
      .ok ((base &&& 0xFC000000#32) ||| (BitVec.ofInt 32 delta &&& 0x03FFFFFF#32))
    else .error .branchOutOfRange
  | .branch19 =>
    if -2 ^ 18 ≤ delta ∧ delta < 2 ^ 18 then
      .ok ((base &&& 0xFF00001F#32) ||| ((BitVec.ofInt 32 delta &&& 0x0007FFFF#32) <<< 5))
    else .error .branchOutOfRange
  | .branch14 =>
    if -2 ^ 13 ≤ delta ∧ delta < 2 ^ 13 then
      .ok ((base &&& 0xFFF8001F#32) ||| ((BitVec.ofInt 32 delta &&& 0x00003FFF#32) <<< 5))
    else .error .branchOutOfRange

/-- Patch the words of the fixups in order, stopping at the first that fails. -/
def finishLoop (labels : List (Option Nat)) :
    List Fixup → List Word → Except FinishError Unit × List Word
  | [], code => (.ok (), code)
  | f :: fs, code =>
    match (labels[f.label]?).join with
    | none => (.error (.unboundLabel f.label), code)
    | some bound =>
      match patchBranch (code.getD f.wordIndex 0) f.kind ((bound : Int) - f.wordIndex) with
      | .error x => (.error x, code)
      | .ok w => finishLoop labels fs (code.set f.wordIndex w)

/-- Resolve every pending fixup.  The fixups are gone afterwards, also when one of them failed. -/
def finish (e : Emitter) : Except FinishError Unit × Emitter :=
  let r := finishLoop e.labels e.fixups e.code
  (r.1, { e with code := r.2, fixups := [] })

end Emitter

/-- A computation that emits code. -/
def EmitM (ε α : Type) : Type :=
  Profile → Emitter → Except (Fault ε) (α × Emitter)

namespace EmitM

variable {ε ε' α β : Type}

instance : Monad (EmitM ε) where
  pure a := fun _ e => .ok (a, e)
  bind m f := fun p e =>
    match m p e with
    | .ok (a, e') => f a p e'
    | .error x => .error x

/-- Return an error. -/
def fail (x : ε) : EmitM ε α :=
  fun _ _ => .error (.err x)

def panic (msg : String) : EmitM ε α :=
  fun _ _ => .error (.panic msg)

/-- The value of an operand or field that must be there. -/
def okOr (o : Option α) (x : ε) : EmitM ε α :=
  match o with
  | some a => pure a
  | none => fail x

/-- Change the error type, as `?` does through `From`. -/
def mapErr (f : ε → ε') (m : EmitM ε α) : EmitM ε' α :=
  fun p e =>
    match m p e with
    | .ok r => .ok r
    | .error (.err x) => .error (.err (f x))
    | .error (.panic msg) => .error (.panic msg)

/-- Panics when the condition fails and the profile checks debug assertions. -/
def debugAssert (c : Prop) [Decidable c] (msg : String) : EmitM ε Unit :=
  fun p e => if p.debugAssertions ∧ ¬ c then .error (.panic msg) else .ok ((), e)

/-! ### Words, labels and branches -/

/-- Append one instruction word. -/
def push (w : Word) : EmitM ε Unit :=
  fun _ e => .ok ((), { e with code := e.code ++ [w] })

def rawWord (w : Word) : EmitM ε Unit :=
  push w

/-- The number of bytes emitted so far. -/
def byteLen : EmitM ε Nat :=
  fun _ e => .ok (e.bytes.length, e)

def makeLabel : EmitM ε Label :=
  fun _ e => .ok (⟨e.labels.length⟩, { e with labels := e.labels ++ [none] })

def bindLabel (l : Label) : EmitM ε Unit :=
  fun _ e =>
    match e.labels[l.id]? with
    | none => .error (.panic "index out of bounds")
    | some (some _) => .error (.panic "label already bound")
    | some none => .ok ((), { e with labels := e.labels.set l.id (some e.code.length) })

/-- A branch to a label: patched at once when the label is bound, else recorded as a fixup. -/
def emitBranch (base : Word) (kind : FixupKind) (l : Label) : EmitM ε Unit :=
  fun _ e =>
    match e.labels[l.id]? with
    | none => .error (.panic "index out of bounds")
    | some (some bound) =>
      match Emitter.patchBranch base kind ((bound : Int) - e.code.length) with
      | .ok w => .ok ((), { e with code := e.code ++ [w] })
      | .error _ => .error (.panic "backward branch out of range")
    | some none =>
      .ok ((), { e with
        code := e.code ++ [base]
        fixups := e.fixups ++ [⟨e.code.length, kind, l.id⟩] })

end EmitM

open EmitM

variable {ε : Type}

/-! ### Move wide -/

/-- Width selector. -/
inductive Sf where
  | w | x
  deriving Repr, DecidableEq

def Sf.bit : Sf → BitVec 1
  | w => 0 | x => 1

def movwWord (sf : Sf) (opc : BitVec 2) (hw : BitVec 2) (imm16 : BitVec 16) (rd : Reg) : Word :=
  bitField 31 sf.bit ||| bitField 29 opc ||| 0x12800000#32 ||| bitField 21 hw
    ||| bitField 5 imm16 ||| bitField 0 rd

def movw (sf : Sf) (opc : BitVec 2) (hw : Nat) (imm16 : BitVec 16) (rd : Reg) : EmitM ε Unit := do
  debugAssert (hw < if sf = .x then 4 else 2) "hw out of range for sf"
  push (movwWord sf opc (BitVec.ofNat 2 hw) imm16 rd)

def movz64 (rd : Reg) (imm16 : BitVec 16) (lsl : Nat) : EmitM ε Unit :=
  movw .x 2 (lsl / 16) imm16 rd

def movz32 (rd : Reg) (imm16 : BitVec 16) (lsl : Nat) : EmitM ε Unit :=
  movw .w 2 (lsl / 16) imm16 rd

def movn64 (rd : Reg) (imm16 : BitVec 16) (lsl : Nat) : EmitM ε Unit :=
  movw .x 0 (lsl / 16) imm16 rd

def movk64 (rd : Reg) (imm16 : BitVec 16) (lsl : Nat) : EmitM ε Unit :=
  movw .x 3 (lsl / 16) imm16 rd

def movk32 (rd : Reg) (imm16 : BitVec 16) (lsl : Nat) : EmitM ε Unit :=
  movw .w 3 (lsl / 16) imm16 rd

/-- The lanes of `loadConst64` from `lane` on: `MOVZ` for the first lane that is not zero, `MOVK`
for the later ones. -/
def loadConst64Lanes (rd : Reg) (value : BitVec 64) : List Nat → Bool → EmitM ε Unit
  | [], emitted => if emitted then pure () else movz64 rd 0 0
  | lane :: lanes, emitted =>
    let part := value.extractLsb' (16 * lane) 16
    if part = 0 && emitted then loadConst64Lanes rd value lanes emitted
    else if !emitted && part = 0 && lane != 3 then loadConst64Lanes rd value lanes emitted
    else if !emitted then do
      movz64 rd part (lane * 16)
      loadConst64Lanes rd value lanes true
    else do
      movk64 rd part (lane * 16)
      loadConst64Lanes rd value lanes emitted

/-- Synthesise a 64-bit constant. -/
def loadConst64 (rd : Reg) (value : BitVec 64) : EmitM ε Unit :=
  if value &&& ~~~0xFFFF#64 = 0 then movz64 rd (value.setWidth 16) 0
  else loadConst64Lanes rd value [0, 1, 2, 3] false

/-! ### Add and subtract -/

def addsubImmWord (sf : Sf) (op s shift : BitVec 1) (imm12 : BitVec 32) (rn rd : Reg) : Word :=
  bitField 31 sf.bit ||| bitField 30 op ||| bitField 29 s ||| 0x11000000#32 ||| bitField 22 shift
    ||| (imm12 <<< 10) ||| bitField 5 rn ||| bitField 0 rd

def addsubImm (sf : Sf) (op s shift : BitVec 1) (imm12 : BitVec 32) (rn rd : Reg) :
    EmitM ε Unit := do
  debugAssert (imm12.toNat < 2 ^ 12) "imm12 < (1 << 12)"
  push (addsubImmWord sf op s shift imm12 rn rd)

/-- The shift bit and the twelve-bit field of an add/subtract immediate. -/
def encodeAddsubImm (value : BitVec 32) : Option (BitVec 1 × BitVec 32) :=
  if value.toNat < 2 ^ 12 then some (0, value)
  else if value &&& 0xFFF#32 = 0 ∧ (value >>> 12).toNat < 2 ^ 12 then some (1, value >>> 12)
  else none

/-- The four add/subtract immediates; panic when the value has no encoding. -/
def addsub64Imm (op s : BitVec 1) (rd rn : Reg) (imm : BitVec 32) : EmitM ε Unit :=
  match encodeAddsubImm imm with
  | some (shift, imm12) => addsubImm .x op s shift imm12 rn rd
  | none => EmitM.panic "imm out of range"

def add64Imm (rd rn : Reg) (imm : BitVec 32) : EmitM ε Unit := addsub64Imm 0 0 rd rn imm
def adds64Imm (rd rn : Reg) (imm : BitVec 32) : EmitM ε Unit := addsub64Imm 0 1 rd rn imm
def sub64Imm (rd rn : Reg) (imm : BitVec 32) : EmitM ε Unit := addsub64Imm 1 0 rd rn imm
def subs64Imm (rd rn : Reg) (imm : BitVec 32) : EmitM ε Unit := addsub64Imm 1 1 rd rn imm
def cmp64Imm (rn : Reg) (imm : BitVec 32) : EmitM ε Unit := subs64Imm 31 rn imm

/-- The shift kinds of a shifted-register operand. -/
inductive ShiftKind where
  | lsl | lsr | asr | ror
  deriving Repr, DecidableEq

def ShiftKind.bits : ShiftKind → BitVec 2
  | lsl => 0 | lsr => 1 | asr => 2 | ror => 3

def addsubShiftedWord (sf : Sf) (op s : BitVec 1) (shift : ShiftKind) (rm : Reg) (imm6 : BitVec 6)
    (rn rd : Reg) : Word :=
  bitField 31 sf.bit ||| bitField 30 op ||| bitField 29 s ||| 0x0B000000#32
    ||| bitField 22 shift.bits ||| bitField 16 rm ||| bitField 10 imm6 ||| bitField 5 rn
    ||| bitField 0 rd

def addsubShifted (sf : Sf) (op s : BitVec 1) (shift : ShiftKind) (rm : Reg) (imm6 : BitVec 6)
    (rn rd : Reg) : EmitM ε Unit :=
  push (addsubShiftedWord sf op s shift rm imm6 rn rd)

def add64 (rd rn rm : Reg) : EmitM ε Unit := addsubShifted .x 0 0 .lsl rm 0 rn rd
def adds64 (rd rn rm : Reg) : EmitM ε Unit := addsubShifted .x 0 1 .lsl rm 0 rn rd
def sub64 (rd rn rm : Reg) : EmitM ε Unit := addsubShifted .x 1 0 .lsl rm 0 rn rd
def subs64 (rd rn rm : Reg) : EmitM ε Unit := addsubShifted .x 1 1 .lsl rm 0 rn rd
def cmp64 (rn rm : Reg) : EmitM ε Unit := subs64 31 rn rm

/-! ### Logical -/

def logicalShiftedWord (sf : Sf) (opc : BitVec 2) (shift : ShiftKind) (n : BitVec 1) (rm : Reg)
    (imm6 : BitVec 6) (rn rd : Reg) : Word :=
  bitField 31 sf.bit ||| bitField 29 opc ||| 0x0A000000#32 ||| bitField 22 shift.bits
    ||| bitField 21 n ||| bitField 16 rm ||| bitField 10 imm6 ||| bitField 5 rn ||| bitField 0 rd

def logicalShifted (sf : Sf) (opc : BitVec 2) (shift : ShiftKind) (n : BitVec 1) (rm : Reg)
    (imm6 : BitVec 6) (rn rd : Reg) : EmitM ε Unit :=
  push (logicalShiftedWord sf opc shift n rm imm6 rn rd)

def and64 (rd rn rm : Reg) : EmitM ε Unit := logicalShifted .x 0 .lsl 0 rm 0 rn rd
def orr64 (rd rn rm : Reg) : EmitM ε Unit := logicalShifted .x 1 .lsl 0 rm 0 rn rd
def eor64 (rd rn rm : Reg) : EmitM ε Unit := logicalShifted .x 2 .lsl 0 rm 0 rn rd
def ands64 (rd rn rm : Reg) : EmitM ε Unit := logicalShifted .x 3 .lsl 0 rm 0 rn rd

/-- `MOV` (register), an alias of `ORR rd, xzr, rm`. -/
def mov64 (rd rm : Reg) : EmitM ε Unit := orr64 rd 31 rm

/-! ### Data processing -/

def dp2srcWord (sf : Sf) (opcode : BitVec 6) (rm rn rd : Reg) : Word :=
  bitField 31 sf.bit ||| 0x1AC00000#32 ||| bitField 16 rm ||| bitField 10 opcode ||| bitField 5 rn
    ||| bitField 0 rd

def dp2src (sf : Sf) (opcode : BitVec 6) (rm rn rd : Reg) : EmitM ε Unit :=
  push (dp2srcWord sf opcode rm rn rd)

def udiv64 (rd rn rm : Reg) : EmitM ε Unit := dp2src .x 2 rm rn rd
def sdiv64 (rd rn rm : Reg) : EmitM ε Unit := dp2src .x 3 rm rn rd
def lslv64 (rd rn rm : Reg) : EmitM ε Unit := dp2src .x 8 rm rn rd
def lsrv64 (rd rn rm : Reg) : EmitM ε Unit := dp2src .x 9 rm rn rd
def asrv64 (rd rn rm : Reg) : EmitM ε Unit := dp2src .x 10 rm rn rd
def rorv64 (rd rn rm : Reg) : EmitM ε Unit := dp2src .x 11 rm rn rd

/-- `MADD` (`o0 = 0`) or `MSUB` (`o0 = 1`). -/
def dp3srcWord (o0 : BitVec 1) (rm ra rn rd : Reg) : Word :=
  0x9B000000#32 ||| bitField 16 rm ||| bitField 15 o0 ||| bitField 10 ra ||| bitField 5 rn
    ||| bitField 0 rd

def madd64 (rd rn rm ra : Reg) : EmitM ε Unit := push (dp3srcWord 0 rm ra rn rd)
def mul64 (rd rn rm : Reg) : EmitM ε Unit := madd64 rd rn rm 31
def msub64 (rd rn rm ra : Reg) : EmitM ε Unit := push (dp3srcWord 1 rm ra rn rd)

/-- A word with three register fields at the usual places over constant opcode bits. -/
def regs3Word (base : Word) (rm rn rd : Reg) : Word :=
  base ||| bitField 16 rm ||| bitField 5 rn ||| bitField 0 rd

/-- A word with two register fields over constant opcode bits. -/
def regs2Word (base : Word) (rn rd : Reg) : Word :=
  base ||| bitField 5 rn ||| bitField 0 rd

def umulh64 (rd rn rm : Reg) : EmitM ε Unit := push (regs3Word 0x9BC07C00#32 rm rn rd)
def smulh64 (rd rn rm : Reg) : EmitM ε Unit := push (regs3Word 0x9B407C00#32 rm rn rd)

/-! ### Conditional select -/

/-- The condition with its low bit flipped. -/
def invert (c : A64.Cond) : A64.Cond := .ofCode (c.code ^^^ 1)

def cselWord (sf : Sf) (op : BitVec 1) (o2 : BitVec 2) (rm : Reg) (cond : A64.Cond) (rn rd : Reg) :
    Word :=
  bitField 31 sf.bit ||| bitField 30 op ||| 0x1A800000#32 ||| bitField 16 rm
    ||| bitField 12 cond.code ||| bitField 10 o2 ||| bitField 5 rn ||| bitField 0 rd

def cselForm (sf : Sf) (op : BitVec 1) (o2 : BitVec 2) (rm : Reg) (cond : A64.Cond) (rn rd : Reg) :
    EmitM ε Unit :=
  push (cselWord sf op o2 rm cond rn rd)

def csel64 (rd rn rm : Reg) (cond : A64.Cond) : EmitM ε Unit := cselForm .x 0 0 rm cond rn rd
def csinc64 (rd rn rm : Reg) (cond : A64.Cond) : EmitM ε Unit := cselForm .x 0 1 rm cond rn rd
def csinv64 (rd rn rm : Reg) (cond : A64.Cond) : EmitM ε Unit := cselForm .x 1 0 rm cond rn rd
def csneg64 (rd rn rm : Reg) (cond : A64.Cond) : EmitM ε Unit := cselForm .x 1 1 rm cond rn rd

/-- `CSET`, an alias of `CSINC rd, xzr, xzr` on the inverted condition. -/
def cset64 (rd : Reg) (cond : A64.Cond) : EmitM ε Unit := csinc64 rd 31 31 (invert cond)

/-! ### Loads and stores -/

def ldstUoffWord (size : BitVec 2) (v : BitVec 1) (opc : BitVec 2) (imm12 : BitVec 32)
    (rn rt : Reg) : Word :=
  bitField 30 size ||| 0x39000000#32 ||| bitField 26 v ||| bitField 22 opc ||| (imm12 <<< 10)
    ||| bitField 5 rn ||| bitField 0 rt

def ldstUoff (size : BitVec 2) (v : BitVec 1) (opc : BitVec 2) (imm12 : BitVec 32) (rn rt : Reg) :
    EmitM ε Unit := do
  debugAssert (imm12.toNat < 2 ^ 12) "imm12 < (1 << 12)"
  push (ldstUoffWord size v opc imm12 rn rt)

/-- A load or store of `n` bytes at a byte offset, which must be a multiple of `n`. -/
def ldstScaled (n : Nat) (size : BitVec 2) (v : BitVec 1) (opc : BitVec 2) (offset : BitVec 32)
    (rn rt : Reg) : EmitM ε Unit := do
  debugAssert (offset.toNat % n = 0) "offset.is_multiple_of"
  ldstUoff size v opc (offset / BitVec.ofNat 32 n) rn rt

def ldr64 (rt rn : Reg) (offset : BitVec 32) : EmitM ε Unit := ldstScaled 8 3 0 1 offset rn rt
def ldr32 (rt rn : Reg) (offset : BitVec 32) : EmitM ε Unit := ldstScaled 4 2 0 1 offset rn rt
def ldrh (rt rn : Reg) (offset : BitVec 32) : EmitM ε Unit := ldstScaled 2 1 0 1 offset rn rt
def ldrb (rt rn : Reg) (offset : BitVec 32) : EmitM ε Unit := ldstScaled 1 0 0 1 offset rn rt
def str64 (rt rn : Reg) (offset : BitVec 32) : EmitM ε Unit := ldstScaled 8 3 0 0 offset rn rt
def str32 (rt rn : Reg) (offset : BitVec 32) : EmitM ε Unit := ldstScaled 4 2 0 0 offset rn rt
def strh (rt rn : Reg) (offset : BitVec 32) : EmitM ε Unit := ldstScaled 2 1 0 0 offset rn rt
def strb (rt rn : Reg) (offset : BitVec 32) : EmitM ε Unit := ldstScaled 1 0 0 0 offset rn rt
def ldrQ (vt rn : Reg) (offset : BitVec 32) : EmitM ε Unit := ldstScaled 16 0 1 3 offset rn vt
def strQ (vt rn : Reg) (offset : BitVec 32) : EmitM ε Unit := ldstScaled 16 0 1 2 offset rn vt
def ldrD (vt rn : Reg) (offset : BitVec 32) : EmitM ε Unit := ldstScaled 8 3 1 1 offset rn vt
def strD (vt rn : Reg) (offset : BitVec 32) : EmitM ε Unit := ldstScaled 8 3 1 0 offset rn vt
def ldrS (vt rn : Reg) (offset : BitVec 32) : EmitM ε Unit := ldstScaled 4 2 1 1 offset rn vt
def strS (vt rn : Reg) (offset : BitVec 32) : EmitM ε Unit := ldstScaled 4 2 1 0 offset rn vt

def ldstpWord (opc : BitVec 2) (v load : BitVec 1) (idxMode : BitVec 3) (imm7 : BitVec 7)
    (rt2 rn rt : Reg) : Word :=
  bitField 30 opc ||| 0x28000000#32 ||| bitField 26 v ||| bitField 23 idxMode ||| bitField 22 load
    ||| bitField 15 imm7 ||| bitField 10 rt2 ||| bitField 5 rn ||| bitField 0 rt

/-- A load/store pair of 64-bit registers at the byte offset `imm`. -/
def ldstp64 (load : BitVec 1) (idxMode : BitVec 3) (imm : Int) (rt2 rn rt : Reg) :
    EmitM ε Unit := do
  debugAssert (imm % 8 = 0) "imm & 7 == 0"
  debugAssert (-64 ≤ imm.tdiv 8 ∧ imm.tdiv 8 < 64) "(-64..64).contains(&scaled)"
  push (ldstpWord 2 0 load idxMode (BitVec.ofInt 7 (imm.tdiv 8)) rt2 rn rt)

def stp64Pre (rt rt2 rn : Reg) (imm : Int) : EmitM ε Unit := ldstp64 0 3 imm rt2 rn rt
def ldp64Post (rt rt2 rn : Reg) (imm : Int) : EmitM ε Unit := ldstp64 1 1 imm rt2 rn rt
def stp64 (rt rt2 rn : Reg) (imm : Int) : EmitM ε Unit := ldstp64 0 2 imm rt2 rn rt
def ldp64 (rt rt2 rn : Reg) (imm : Int) : EmitM ε Unit := ldstp64 1 2 imm rt2 rn rt

/-! ### Branches and system -/

def b (l : Label) : EmitM ε Unit := emitBranch 0x14000000#32 .branch26 l
def bl (l : Label) : EmitM ε Unit := emitBranch 0x94000000#32 .branch26 l

def bCond (cond : A64.Cond) (l : Label) : EmitM ε Unit :=
  emitBranch (0x54000000#32 ||| bitField 0 cond.code) .branch19 l

def cbz64 (rt : Reg) (l : Label) : EmitM ε Unit :=
  emitBranch (0xB4000000#32 ||| bitField 0 rt) .branch19 l

def cbnz64 (rt : Reg) (l : Label) : EmitM ε Unit :=
  emitBranch (0xB5000000#32 ||| bitField 0 rt) .branch19 l

/-- A test-bit branch: the number of the bit is split over two fields. -/
def testBitWord (nonzero : BitVec 1) (rt : Reg) (bit : Nat) : Word :=
  bitField 31 (BitVec.ofNat 1 (bit >>> 5)) ||| 0x36000000#32 ||| bitField 24 nonzero
    ||| bitField 19 (BitVec.ofNat 5 bit) ||| bitField 0 rt

def tbz (rt : Reg) (bit : Nat) (l : Label) : EmitM ε Unit := do
  debugAssert (bit < 64) "bit < 64"
  emitBranch (testBitWord 0 rt bit) .branch14 l

def tbnz (rt : Reg) (bit : Nat) (l : Label) : EmitM ε Unit := do
  debugAssert (bit < 64) "bit < 64"
  emitBranch (testBitWord 1 rt bit) .branch14 l

def br (rn : Reg) : EmitM ε Unit := push (0xD61F0000#32 ||| bitField 5 rn)
def blr (rn : Reg) : EmitM ε Unit := push (0xD63F0000#32 ||| bitField 5 rn)
def retTo (rn : Reg) : EmitM ε Unit := push (0xD65F0000#32 ||| bitField 5 rn)
def ret : EmitM ε Unit := retTo 30
def nop : EmitM ε Unit := push 0xD503201F#32
def brk (imm16 : BitVec 16) : EmitM ε Unit := push (0xD4200000#32 ||| bitField 5 imm16)

end Quantum.Jit
