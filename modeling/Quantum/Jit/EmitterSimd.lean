import Quantum.Jit.Emitter

/-!
# The A64 emitter: SIMD and floating point

The NEON and scalar floating-point encoders of `emitter.rs`.  Almost all of them put two or three
register numbers over constant opcode bits (`regs3Word`, `regs2Word`); the register argument order
is the source's, destination first.
-/

namespace Quantum.Jit

open A64 (Word Reg)
open EmitM

variable {ε : Type}

/-- Three vector registers over constant opcode bits. -/
def vec3 (base : Word) (vd vn vm : Reg) : EmitM ε Unit := push (regs3Word base vm vn vd)

/-! ### Bitwise -/

def eorV16b (vd vn vm : Reg) : EmitM ε Unit := vec3 0x6E201C00#32 vd vn vm
def andV16b (vd vn vm : Reg) : EmitM ε Unit := vec3 0x4E201C00#32 vd vn vm
def orrV16b (vd vn vm : Reg) : EmitM ε Unit := vec3 0x4EA01C00#32 vd vn vm

/-! ### Scalar floating point -/

def fp2src (base : Word) (vd vn vm : Reg) : EmitM ε Unit := push (regs3Word base vm vn vd)

def faddD (vd vn vm : Reg) : EmitM ε Unit := fp2src 0x1E602800#32 vd vn vm
def fsubD (vd vn vm : Reg) : EmitM ε Unit := fp2src 0x1E603800#32 vd vn vm
def fmulD (vd vn vm : Reg) : EmitM ε Unit := fp2src 0x1E600800#32 vd vn vm
def fdivD (vd vn vm : Reg) : EmitM ε Unit := fp2src 0x1E601800#32 vd vn vm
def faddS (vd vn vm : Reg) : EmitM ε Unit := fp2src 0x1E202800#32 vd vn vm
def fsubS (vd vn vm : Reg) : EmitM ε Unit := fp2src 0x1E203800#32 vd vn vm
def fmulS (vd vn vm : Reg) : EmitM ε Unit := fp2src 0x1E200800#32 vd vn vm
def fdivS (vd vn vm : Reg) : EmitM ε Unit := fp2src 0x1E201800#32 vd vn vm
def fminS (vd vn vm : Reg) : EmitM ε Unit := fp2src 0x1E205800#32 vd vn vm
def fminD (vd vn vm : Reg) : EmitM ε Unit := fp2src 0x1E605800#32 vd vn vm
def fmaxS (vd vn vm : Reg) : EmitM ε Unit := fp2src 0x1E204800#32 vd vn vm
def fmaxD (vd vn vm : Reg) : EmitM ε Unit := fp2src 0x1E604800#32 vd vn vm

def fpCvt (base : Word) (rd rn : Reg) : EmitM ε Unit := push (regs2Word base rn rd)

def scvtfSW (vd rn : Reg) : EmitM ε Unit := fpCvt 0x1E220000#32 vd rn
def scvtfSX (vd rn : Reg) : EmitM ε Unit := fpCvt 0x9E220000#32 vd rn
def scvtfDW (vd rn : Reg) : EmitM ε Unit := fpCvt 0x1E620000#32 vd rn
def scvtfDX (vd rn : Reg) : EmitM ε Unit := fpCvt 0x9E620000#32 vd rn
def fcvtzsWS (rd vn : Reg) : EmitM ε Unit := fpCvt 0x1E380000#32 rd vn
def fcvtzsXS (rd vn : Reg) : EmitM ε Unit := fpCvt 0x9E380000#32 rd vn
def fcvtzsWD (rd vn : Reg) : EmitM ε Unit := fpCvt 0x1E780000#32 rd vn
def fcvtzsXD (rd vn : Reg) : EmitM ε Unit := fpCvt 0x9E780000#32 rd vn
def fcvtnsWS (rd vn : Reg) : EmitM ε Unit := fpCvt 0x1E200000#32 rd vn
def fcvtnsXS (rd vn : Reg) : EmitM ε Unit := fpCvt 0x9E200000#32 rd vn
def fcvtnsWD (rd vn : Reg) : EmitM ε Unit := fpCvt 0x1E600000#32 rd vn
def fcvtnsXD (rd vn : Reg) : EmitM ε Unit := fpCvt 0x9E600000#32 rd vn
def fcvtDS (vd vn : Reg) : EmitM ε Unit := fpCvt 0x1E22C000#32 vd vn
def fcvtSD (vd vn : Reg) : EmitM ε Unit := fpCvt 0x1E624000#32 vd vn
def fsqrtS (vd vn : Reg) : EmitM ε Unit := fpCvt 0x1E21C000#32 vd vn
def fsqrtD (vd vn : Reg) : EmitM ε Unit := fpCvt 0x1E61C000#32 vd vn

def fcmpS (vn vm : Reg) : EmitM ε Unit := push (regs3Word 0x1E202000#32 vm vn 0)
def fcmpD (vn vm : Reg) : EmitM ε Unit := push (regs3Word 0x1E602000#32 vm vn 0)

/-! ### Byte reversal -/

def dp1src (base : Word) (rd rn : Reg) : EmitM ε Unit := push (regs2Word base rn rd)

def revX (rd rn : Reg) : EmitM ε Unit := dp1src 0xDAC00C00#32 rd rn
def revW (rd rn : Reg) : EmitM ε Unit := dp1src 0x5AC00800#32 rd rn

/-! ### Packed integer and packed floating point -/

def addV2d (vd vn vm : Reg) : EmitM ε Unit := vec3 0x4EE08400#32 vd vn vm
def subV2d (vd vn vm : Reg) : EmitM ε Unit := vec3 0x6EE08400#32 vd vn vm
def addV4s (vd vn vm : Reg) : EmitM ε Unit := vec3 0x4EA08400#32 vd vn vm
def subV4s (vd vn vm : Reg) : EmitM ε Unit := vec3 0x6EA08400#32 vd vn vm
def addV16b (vd vn vm : Reg) : EmitM ε Unit := vec3 0x4E208400#32 vd vn vm
def subV16b (vd vn vm : Reg) : EmitM ε Unit := vec3 0x6E208400#32 vd vn vm
def addV8h (vd vn vm : Reg) : EmitM ε Unit := vec3 0x4E608400#32 vd vn vm
def subV8h (vd vn vm : Reg) : EmitM ε Unit := vec3 0x6E608400#32 vd vn vm

def faddV4s (vd vn vm : Reg) : EmitM ε Unit := vec3 0x4E20D400#32 vd vn vm
def faddV2d (vd vn vm : Reg) : EmitM ε Unit := vec3 0x4E60D400#32 vd vn vm
def fsubV4s (vd vn vm : Reg) : EmitM ε Unit := vec3 0x4EA0D400#32 vd vn vm
def fsubV2d (vd vn vm : Reg) : EmitM ε Unit := vec3 0x4EE0D400#32 vd vn vm
def fmulV4s (vd vn vm : Reg) : EmitM ε Unit := vec3 0x6E20DC00#32 vd vn vm
def fmulV2d (vd vn vm : Reg) : EmitM ε Unit := vec3 0x6E60DC00#32 vd vn vm
def fdivV4s (vd vn vm : Reg) : EmitM ε Unit := vec3 0x6E20FC00#32 vd vn vm
def fdivV2d (vd vn vm : Reg) : EmitM ε Unit := vec3 0x6E60FC00#32 vd vn vm

def cmeqV16b (vd vn vm : Reg) : EmitM ε Unit := vec3 0x6E208C00#32 vd vn vm
def cmeqV8h (vd vn vm : Reg) : EmitM ε Unit := vec3 0x6E608C00#32 vd vn vm
def cmeqV4s (vd vn vm : Reg) : EmitM ε Unit := vec3 0x6EA08C00#32 vd vn vm
def cmeqV2d (vd vn vm : Reg) : EmitM ε Unit := vec3 0x6EE08C00#32 vd vn vm

def mulV8h (vd vn vm : Reg) : EmitM ε Unit := vec3 0x4E609C00#32 vd vn vm

/-! ### Shifts by immediate -/

/-- A shift by immediate, with the field `immh:immb` at bit 16. -/
def vecShiftWord (base : Word) (imm : BitVec 32) (vn vd : Reg) : Word :=
  base ||| (imm <<< 16) ||| bitField 5 vn ||| bitField 0 vd

/-- `SHL` on lanes of `lane` bits: `immh:immb = lane + shift`. -/
def shlLane (lane : Nat) (vd vn : Reg) (shift : BitVec 32) : EmitM ε Unit := do
  debugAssert (shift.toNat < lane) "shift out of range"
  push (vecShiftWord 0x4F005400#32 (BitVec.ofNat 32 lane + shift) vn vd)

/-- `USHR` or `SSHR` on lanes of `lane` bits: `immh:immb = 2 * lane - shift`. -/
def shrLane (base : Word) (lane : Nat) (vd vn : Reg) (shift : BitVec 32) : EmitM ε Unit := do
  debugAssert (1 ≤ shift.toNat ∧ shift.toNat ≤ lane) "shift out of range"
  push (vecShiftWord base (BitVec.ofNat 32 (2 * lane) - shift) vn vd)

def shlV2d (vd vn : Reg) (shift : BitVec 32) : EmitM ε Unit := shlLane 64 vd vn shift
def shlV4s (vd vn : Reg) (shift : BitVec 32) : EmitM ε Unit := shlLane 32 vd vn shift
def shlV8h (vd vn : Reg) (shift : BitVec 32) : EmitM ε Unit := shlLane 16 vd vn shift
def ushrV2d (vd vn : Reg) (shift : BitVec 32) : EmitM ε Unit := shrLane 0x6F000400#32 64 vd vn shift
def ushrV4s (vd vn : Reg) (shift : BitVec 32) : EmitM ε Unit := shrLane 0x6F000400#32 32 vd vn shift
def ushrV8h (vd vn : Reg) (shift : BitVec 32) : EmitM ε Unit := shrLane 0x6F000400#32 16 vd vn shift
def sshrV4s (vd vn : Reg) (shift : BitVec 32) : EmitM ε Unit := shrLane 0x4F000400#32 32 vd vn shift
def sshrV8h (vd vn : Reg) (shift : BitVec 32) : EmitM ε Unit := shrLane 0x4F000400#32 16 vd vn shift
def sshrV16b (vd vn : Reg) (shift : BitVec 32) : EmitM ε Unit := shrLane 0x4F000400#32 8 vd vn shift

/-! ### Lanes and permutations -/

/-- `INS vd.s[dst], vn.s[src]`; the lanes are two-bit numbers, as the source's assertion demands. -/
def insVS (vd : Reg) (dstLane : BitVec 2) (vn : Reg) (srcLane : BitVec 2) : EmitM ε Unit :=
  push (0x6E040400#32 ||| bitField 19 dstLane ||| bitField 13 srcLane ||| bitField 5 vn
    ||| bitField 0 vd)

/-- `EXT vd.16b, vn.16b, vm.16b, #imm`. -/
def extV16b (vd vn vm : Reg) (imm : BitVec 32) : EmitM ε Unit := do
  debugAssert (imm.toNat < 16) "imm < 16"
  push (0x6E000000#32 ||| bitField 16 vm ||| (imm <<< 11) ||| bitField 5 vn ||| bitField 0 vd)

def zipForm (base : Word) (vd vn vm : Reg) : EmitM ε Unit := push (regs3Word base vm vn vd)

def zip1V16b (vd vn vm : Reg) : EmitM ε Unit := zipForm 0x4E003800#32 vd vn vm
def zip1V8h (vd vn vm : Reg) : EmitM ε Unit := zipForm 0x4E403800#32 vd vn vm
def zip1V4s (vd vn vm : Reg) : EmitM ε Unit := zipForm 0x4E803800#32 vd vn vm
def zip1V2d (vd vn vm : Reg) : EmitM ε Unit := zipForm 0x4EC03800#32 vd vn vm
def zip2V16b (vd vn vm : Reg) : EmitM ε Unit := zipForm 0x4E007800#32 vd vn vm
def zip2V8h (vd vn vm : Reg) : EmitM ε Unit := zipForm 0x4E407800#32 vd vn vm
def zip2V4s (vd vn vm : Reg) : EmitM ε Unit := zipForm 0x4E807800#32 vd vn vm
def zip2V2d (vd vn vm : Reg) : EmitM ε Unit := zipForm 0x4EC07800#32 vd vn vm

def addvBV8b (vd vn : Reg) : EmitM ε Unit := push (regs2Word 0x0E31B800#32 vn vd)

/-- `UMOV rd, vn.b[lane]`. -/
def umovWB (rd vn : Reg) (lane : BitVec 4) : EmitM ε Unit :=
  push (0x0E013C00#32 ||| bitField 17 lane ||| bitField 5 vn ||| bitField 0 rd)

/-- `INS vd.d[lane], rn`. -/
def insVDGpr (vd : Reg) (lane : BitVec 1) (rn : Reg) : EmitM ε Unit :=
  push (0x4E081C00#32 ||| bitField 20 lane ||| bitField 5 rn ||| bitField 0 vd)

/-- `BFI`, 32-bit: `BFM rd, rn, #(-lsb mod 32), #(width - 1)`. -/
def bfiW (rd rn : Reg) (lsb width : Nat) : EmitM ε Unit := do
  debugAssert (0 < width ∧ lsb + width ≤ 32) "width > 0 && lsb + width <= 32"
  push (0x33000000#32 ||| bitField 16 (BitVec.ofNat 5 (32 - lsb))
    ||| bitField 10 (BitVec.ofNat 5 (width - 1)) ||| bitField 5 rn ||| bitField 0 rd)

end Quantum.Jit
