import Quantum.A64.Insn
import Quantum.Lib.AddCarry
import Quantum.Lib.ByteMem

/-!
# Execution of A64 instructions

The state of the host core (`State`) and the effect of one instruction on it (`execData`,
`execCall`, `step`).  What lies outside the instruction set is an environment (`Env`): the
floating-point operations, which are not interpreted; the values the virtual counter shows; and
the host functions that a `BLR` enters.  External events (counter reads and host calls) are
numbered by `State.ext`, so an environment may answer every one of them differently, and for a
given environment execution is a function.

Register number 31 of `State.x` is the stack pointer; `readX` and `writeX` are the views in which
31 is the zero register.
-/

namespace Quantum.A64

open Word

/-- The condition flags. -/
structure Flags where
  n : Bool
  z : Bool
  c : Bool
  v : Bool
  deriving Repr, DecidableEq, Inhabited

/-- Does the condition hold of the flags? -/
def Cond.holds : Cond → Flags → Bool
  | .eq, f => f.z
  | .ne, f => !f.z
  | .cs, f => f.c
  | .cc, f => !f.c
  | .mi, f => f.n
  | .pl, f => !f.n
  | .vs, f => f.v
  | .vc, f => !f.v
  | .hi, f => f.c && !f.z
  | .ls, f => !(f.c && !f.z)
  | .ge, f => f.n == f.v
  | .lt, f => !(f.n == f.v)
  | .gt, f => f.n == f.v && !f.z
  | .le, f => !(f.n == f.v && !f.z)
  | .al, _ => true
  | .nv, _ => true

/-- The state of the core and of memory. -/
structure State where
  /-- General registers; number 31 is the stack pointer. -/
  x : Reg → BitVec 64
  /-- SIMD registers. -/
  v : Reg → BitVec 128
  nzcv : Flags
  mem : ByteMem
  /-- How many external events have happened. -/
  ext : Nat

namespace State

variable (s : State)

/-- Register `r`, with 31 the zero register. -/
def readX (r : Reg) : BitVec 64 :=
  if r = 31 then 0 else s.x r

/-- Write register `r`; a write to the zero register is dropped. -/
def writeX (r : Reg) (val : BitVec 64) : State :=
  if r = 31 then s else { s with x := Function.update s.x r val }

/-- Write register `r`, with 31 the stack pointer. -/
def writeXsp (r : Reg) (val : BitVec 64) : State :=
  { s with x := Function.update s.x r val }

def writeV (r : Reg) (val : BitVec 128) : State :=
  { s with v := Function.update s.v r val }

end State

/-- What execution takes from outside the modelled instruction set. -/
structure Env where
  /-- Floating-point operations on two vectors, one vector, and between the register files, by the
  opcode bits of the word. -/
  fp2 : Word → BitVec 128 → BitVec 128 → BitVec 128
  fp1 : Word → BitVec 128 → BitVec 128
  fpToInt : Word → BitVec 128 → BitVec 64
  intToFp : Word → BitVec 64 → BitVec 128
  fcmp : Word → BitVec 128 → BitVec 128 → Flags
  /-- The scalar SIMD word; `none` when it is not allocated. -/
  simdScalar : Word → (Reg → BitVec 128) → Option (BitVec 128)
  /-- The virtual counter, at the event of the given number. -/
  counter : Nat → BitVec 64
  tpidr : BitVec 64
  /-- The host function at an address: the state it returns with, if it returns. -/
  call : Nat → BitVec 64 → State → Option State
  /-- The host address of the first word of the code. -/
  codeBase : BitVec 64

/-- An environment in which nothing outside the instruction set happens: no host function returns,
and the floating-point operations answer zero. -/
instance : Inhabited Env where
  default :=
    { fp2 := fun _ _ _ => 0
      fp1 := fun _ _ => 0
      fpToInt := fun _ _ => 0
      intToFp := fun _ _ => 0
      fcmp := fun _ _ _ => default
      simdScalar := fun _ _ => none
      counter := fun _ => 0
      tpidr := 0
      call := fun _ _ _ => none
      codeBase := 0 }

instance : Inhabited State where
  default := { x := fun _ => 0, v := fun _ => 0, nzcv := default, mem := fun _ => 0, ext := 0 }

/-! ### Operations on values -/

/-- The flags of `a + b + c`. -/
def addFlags (a b : BitVec 64) (c : Bool) : Flags :=
  { n := (addc a b c).msb
    z := addc a b c == 0
    c := carryOut a b c
    v := overflow a b c }

/-- The flags of a logical operation with result `r`. -/
def logicFlags (r : BitVec 64) : Flags :=
  { n := r.msb, z := r == 0, c := false, v := false }

/-- `SBFM`, 64-bit. -/
def sbfm (immr imms : Nat) (a : BitVec 64) : BitVec 64 :=
  if immr ≤ imms then (a <<< (63 - imms)).sshiftRight (63 - imms + immr)
  else (a <<< (63 - imms)).sshiftRight (63 - imms) <<< (64 - immr)

/-- `UBFM`, 64-bit. -/
def ubfm (immr imms : Nat) (a : BitVec 64) : BitVec 64 :=
  if immr ≤ imms then (a <<< (63 - imms)) >>> (63 - imms + immr)
  else ((a <<< (63 - imms)) >>> (63 - imms)) <<< (64 - immr)

/-- `BFM`, 32-bit: insert bits of `a` into `old`. -/
def bfm32 (immr imms : Nat) (old a : BitVec 32) : BitVec 32 :=
  if immr ≤ imms then
    let mask := BitVec.ofNat 32 (2 ^ (imms - immr + 1) - 1)
    (old &&& ~~~mask) ||| ((a >>> immr) &&& mask)
  else
    let mask := BitVec.ofNat 32 (2 ^ (imms + 1) - 1) <<< (32 - immr)
    (old &&& ~~~mask) ||| ((a <<< (32 - immr)) &&& mask)

/-- Reverse the order of the `n` low bytes of a word. -/
def revBytes {w : Nat} : Nat → BitVec w → BitVec w
  | 0, _ => 0
  | n + 1, a => (a.extractLsb' 0 8).setWidth w <<< (8 * n) ||| revBytes n (a >>> 8)

/-- Reverse the order of the bits of a word. -/
def rbit (a : BitVec 64) : BitVec 64 :=
  a.reverse

/-- Count leading zeros. -/
def clz (a : BitVec 64) : BitVec 64 :=
  a.clz

def execDp1 : Dp1Op → BitVec 64 → BitVec 64
  | .rbit, a => rbit a
  | .clz, a => clz a
  | .rev64, a => revBytes 8 a
  | .rev32, a => revBytes 4 (a.setWidth 32 |>.setWidth 64)

def execDp2 : Dp2Op → BitVec 64 → BitVec 64 → BitVec 64
  | .udiv, a, b => a / b
  | .sdiv, a, b => a.sdiv b
  | .lslv, a, b => a <<< (b.toNat % 64)
  | .lsrv, a, b => a >>> (b.toNat % 64)
  | .asrv, a, b => a.sshiftRight (b.toNat % 64)
  | .rorv, a, b => a.rotateRight (b.toNat % 64)

/-- `a * b`, added to or subtracted from `c`, or the high half of the product. -/
def execDp3 : Dp3Op → BitVec 64 → BitVec 64 → BitVec 64 → BitVec 64
  | .madd, a, b, c => c + a * b
  | .msub, a, b, c => c - a * b
  | .umulh, a, b, _ => BitVec.ofNat 64 (a.toNat * b.toNat / 2 ^ 64)
  | .smulh, a, b, _ => BitVec.ofInt 64 (a.toInt * b.toInt / 2 ^ 64)

def execLogic : LogicOp → BitVec 64 → BitVec 64 → BitVec 64
  | .and, a, b => a &&& b
  | .orr, a, b => a ||| b
  | .eor, a, b => a ^^^ b
  | .ands, a, b => a &&& b
  | .orn, a, b => a ||| ~~~b

/-- The value a conditional select takes when its condition fails. -/
def execCsel : CselOp → BitVec 64 → BitVec 64
  | .csel, b => b
  | .csinc, b => b + 1
  | .csinv, b => ~~~b
  | .csneg, b => -b

/-- The value of a move-wide with the 16-bit immediate at lane `hw`, over the old value. -/
def execMovWide : MovOp → Nat → BitVec 16 → BitVec 64 → BitVec 64
  | .movz, hw, imm, _ => imm.setWidth 64 <<< (16 * hw)
  | .movn, hw, imm, _ => ~~~(imm.setWidth 64 <<< (16 * hw))
  | .movk, hw, imm, old =>
    (old &&& ~~~(0xFFFF#64 <<< (16 * hw))) ||| (imm.setWidth 64 <<< (16 * hw))

/-! ### Vectors -/

/-- Apply `f` to the first `n` lanes of width `k` of two vectors. -/
def mapLanes (k : Nat) (f : BitVec k → BitVec k → BitVec k) :
    Nat → BitVec 128 → BitVec 128 → BitVec 128
  | 0, _, _ => 0
  | n + 1, a, b =>
    mapLanes k f n a b |||
      bitField (k * n) (f (a.extractLsb' (k * n) k) (b.extractLsb' (k * n) k))

/-- Interleave `n` lanes of width `k` of two vectors, from lane `from` up. -/
def zipLanes (k start : Nat) : Nat → BitVec 128 → BitVec 128 → BitVec 128
  | 0, _, _ => 0
  | n + 1, a, b =>
    zipLanes k start n a b |||
      (bitField (k * (2 * n)) (a.extractLsb' (k * (start + n)) k) |||
        bitField (k * (2 * n + 1)) (b.extractLsb' (k * (start + n)) k))

def execVec : VecOp → BitVec 128 → BitVec 128 → BitVec 128
  | .eor, a, b => a ^^^ b
  | .and, a, b => a &&& b
  | .orr, a, b => a ||| b
  | .add k, a, b => mapLanes k (· + ·) (128 / k) a b
  | .sub k, a, b => mapLanes k (· - ·) (128 / k) a b
  | .cmeq k, a, b => mapLanes k (fun x y => if x = y then BitVec.allOnes k else 0) (128 / k) a b
  | .mul k, a, b => mapLanes k (· * ·) (128 / k) a b
  | .zip1 k, a, b => zipLanes k 0 (64 / k) a b
  | .zip2 k, a, b => zipLanes k (64 / k) (64 / k) a b
  | .ext i, a, b => (a >>> (8 * i)) ||| (b <<< (128 - 8 * i))

/-- The lane width of a shift by immediate: the place of the top bit of `immh`. -/
def vecShiftLane (immhb : BitVec 7) : Nat :=
  if immhb.getLsbD 6 then 64 else if immhb.getLsbD 5 then 32
  else if immhb.getLsbD 4 then 16 else 8

def execVecShift (op : VecShift) (immhb : BitVec 7) (a : BitVec 128) : BitVec 128 :=
  let k := vecShiftLane immhb
  match op with
  | .shl => mapLanes k (fun x _ => x <<< (immhb.toNat - k)) (128 / k) a a
  | .ushr => mapLanes k (fun x _ => x >>> (2 * k - immhb.toNat)) (128 / k) a a
  | .sshr => mapLanes k (fun x _ => x.sshiftRight (2 * k - immhb.toNat)) (128 / k) a a

/-- Replace the lane of width `k` at index `i`. -/
def setLane (k i : Nat) (old : BitVec 128) (val : BitVec k) : BitVec 128 :=
  (old &&& ~~~bitField (k * i) (BitVec.allOnes k)) ||| bitField (k * i) val

/-- The sum of the `n` low bytes of a vector. -/
def sumBytes : Nat → BitVec 128 → BitVec 8
  | 0, _ => 0
  | n + 1, a => sumBytes n a + a.extractLsb' (8 * n) 8

/-! ### Loads and stores -/

/-- The number of bytes a load or store with these fields accesses; `none` when the combination is
not allocated or accesses nothing (`PRFM`). -/
def ldstBytes (size : BitVec 2) (v : Bool) (opc : BitVec 2) : Option Nat :=
  match v, opc.toNat with
  | false, 2 => if size = 3 then none else some (2 ^ size.toNat)
  | false, 3 => if size.toNat < 2 then some (2 ^ size.toNat) else none
  | true, 2 => if size = 0 then some 16 else none
  | true, 3 => if size = 0 then some 16 else none
  | _, _ => some (2 ^ size.toNat)

/-- Is the load or store with these fields a store? -/
def ldstIsStore (v : Bool) (opc : BitVec 2) : Bool :=
  opc == 0 || (v && opc == 2)

/-- The address of an unsigned-offset access of `n` bytes. -/
def ldstAddr (s : State) (n : Nat) (imm12 : BitVec 12) (rn : Reg) : BitVec 64 :=
  s.x rn + BitVec.ofNat 64 (imm12.toNat * n)

/-- The value a general-register load of `n` bytes writes. -/
def loadValue (n : Nat) (opc : BitVec 2) (m : ByteMem) (a : BitVec 64) : BitVec 64 :=
  let raw := m.read 64 n a
  match opc.toNat with
  | 2 => (raw.setWidth (8 * n)).signExtend 64
  | 3 => ((raw.setWidth (8 * n)).signExtend 32).setWidth 64
  | _ => raw

def execLdst (size : BitVec 2) (v : Bool) (opc : BitVec 2) (imm12 : BitVec 12) (rn rt : Reg)
    (s : State) : Option State :=
  match ldstBytes size v opc with
  | none => if !v && size = 3 && opc = 2 then some s else none
  | some n =>
    let a := ldstAddr s n imm12 rn
    if ldstIsStore v opc then
      if v then some { s with mem := s.mem.write n a (s.v rt) }
      else some { s with mem := s.mem.write n a (s.readX rt) }
    else if v then some (s.writeV rt (s.mem.read 128 n a))
    else some (s.writeX rt (loadValue n opc s.mem a))

/-- The offset of a load/store pair. -/
def pairOffset (imm7 : BitVec 7) : BitVec 64 :=
  imm7.signExtend 64 * 8

/-- The address of a load/store pair. -/
def pairAddr (mode : PairMode) (imm7 : BitVec 7) (rn : Reg) (s : State) : BitVec 64 :=
  match mode with
  | .postIndex => s.x rn
  | _ => s.x rn + pairOffset imm7

def execPair (load : Bool) (mode : PairMode) (imm7 : BitVec 7) (rt2 rn rt : Reg) (s : State) :
    State :=
  let a := pairAddr mode imm7 rn s
  let s₁ :=
    if load then (s.writeX rt (s.mem.read 64 8 a)).writeX rt2 (s.mem.read 64 8 (a + 8))
    else { s with mem := (s.mem.write 8 a (s.readX rt)).write 8 (a + 8) (s.readX rt2) }
  match mode with
  | .offset => s₁
  | _ => s₁.writeXsp rn (s.x rn + pairOffset imm7)

/-! ### One instruction -/

/-- The second operand of an add or subtract as the adder sees it. -/
def adderOperand (sub : Bool) (b : BitVec 64) : BitVec 64 :=
  if sub then ~~~b else b

/-- Write the sum `a ± b` to `rd`, and the flags when `setFlags`. -/
def execAddSub (sub setFlags : Bool) (a b : BitVec 64) (carry : Bool) (write : BitVec 64 → State)
    : State :=
  let b' := adderOperand sub b
  let s' := write (addc a b' carry)
  if setFlags then { s' with nzcv := addFlags a b' carry } else s'

/-- The effect of an instruction that falls through to the next one; `none` for branches and calls
and for words that are not allocated. -/
def execData (env : Env) (i : Insn) (s : State) : Option State :=
  match i with
  | .movWide is64 op hw imm rd =>
    let r := execMovWide op hw.toNat imm (s.readX rd)
    some (s.writeX rd (if is64 then r else (r.setWidth 32).setWidth 64))
  | .addSubImm sub setFlags sh imm rn rd =>
    let b : BitVec 64 := if sh then imm.setWidth 64 <<< 12 else imm.setWidth 64
    some (execAddSub sub setFlags (s.x rn) b sub
      (if setFlags then s.writeX rd else s.writeXsp rd))
  | .addSubShift sub setFlags rm lsl rn rd =>
    some (execAddSub sub setFlags (s.readX rn) (s.readX rm <<< lsl.toNat) sub (s.writeX rd))
  | .addSubCarry sub rm rn rd =>
    some (execAddSub sub true (s.readX rn) (s.readX rm) s.nzcv.c (s.writeX rd))
  | .logicShift op rm lsl rn rd =>
    let r := execLogic op (s.readX rn) (s.readX rm <<< lsl.toNat)
    some (if op = .ands then { s.writeX rd r with nzcv := logicFlags r } else s.writeX rd r)
  | .andImm imms rn rd =>
    some (s.writeXsp rd (s.readX rn &&& BitVec.ofNat 64 (2 ^ (imms.toNat + 1) - 1)))
  | .sbfm immr imms rn rd => some (s.writeX rd (sbfm immr.toNat imms.toNat (s.readX rn)))
  | .ubfm immr imms rn rd => some (s.writeX rd (ubfm immr.toNat imms.toNat (s.readX rn)))
  | .bfm32 immr imms rn rd =>
    let r := bfm32 immr.toNat imms.toNat ((s.readX rd).setWidth 32) ((s.readX rn).setWidth 32)
    some (s.writeX rd (r.setWidth 64))
  | .dp1 op rn rd => some (s.writeX rd (execDp1 op (s.readX rn)))
  | .dp2 op rm rn rd => some (s.writeX rd (execDp2 op (s.readX rn) (s.readX rm)))
  | .dp3 op rm ra rn rd =>
    some (s.writeX rd (execDp3 op (s.readX rn) (s.readX rm) (s.readX ra)))
  | .csel op rm cond rn rd =>
    some (s.writeX rd (if cond.holds s.nzcv then s.readX rn else execCsel op (s.readX rm)))
  | .ldst size v opc imm rn rt => execLdst size v opc imm rn rt s
  | .ldstPair load mode imm rt2 rn rt => some (execPair load mode imm rt2 rn rt s)
  | .hint => some s
  | .mrsNzcv rt =>
    some (s.writeX rt (bitField 31 (BitVec.ofBool s.nzcv.n) ||| bitField 30 (BitVec.ofBool s.nzcv.z)
      ||| bitField 29 (BitVec.ofBool s.nzcv.c) ||| bitField 28 (BitVec.ofBool s.nzcv.v)))
  | .msrNzcv rt =>
    let a := s.readX rt
    some { s with nzcv := ⟨a.getLsbD 31, a.getLsbD 30, a.getLsbD 29, a.getLsbD 28⟩ }
  | .mrsTpidr rt => some (s.writeX rt env.tpidr)
  | .mrsCntvct rt => some { s.writeX rt (env.counter s.ext) with ext := s.ext + 1 }
  | .vec op vm vn vd => some (s.writeV vd (execVec op (s.v vn) (s.v vm)))
  | .vecShift op immhb vn vd => some (s.writeV vd (execVecShift op immhb (s.v vn)))
  | .insS dst src vn vd =>
    some (s.writeV vd (setLane 32 dst.toNat (s.v vd) ((s.v vn).extractLsb' (32 * src.toNat) 32)))
  | .insD lane rn vd => some (s.writeV vd (setLane 64 lane.toNat (s.v vd) (s.readX rn)))
  | .addvB vn vd => some (s.writeV vd ((sumBytes 8 (s.v vn)).setWidth 128))
  | .umovB lane vn rd =>
    some (s.writeX rd (((s.v vn).extractLsb' (8 * lane.toNat) 8).setWidth 64))
  | .fp2 op vm vn vd => some (s.writeV vd (env.fp2 op (s.v vn) (s.v vm)))
  | .fp1 op vn vd => some (s.writeV vd (env.fp1 op (s.v vn)))
  | .fpToInt is64 op vn rd =>
    let r := env.fpToInt op (s.v vn)
    some (s.writeX rd (if is64 then r else (r.setWidth 32).setWidth 64))
  | .intToFp is64 op rn vd =>
    let a := s.readX rn
    some (s.writeV vd (env.intToFp op (if is64 then a else (a.setWidth 32).setWidth 64)))
  | .fcmp op vm vn => some { s with nzcv := env.fcmp op (s.v vn) (s.v vm) }
  | .simdScalar w => (env.simdScalar w s.v).map fun r => s.writeV (rd w) r
  | .b .. | .bCond .. | .cbz .. | .tbz .. | .br .. | .blr .. | .ret .. | .brk .. => none

/-- The host address of the word at index `pc` of the code. -/
def Env.addrOf (env : Env) (pc : Nat) : BitVec 64 :=
  env.codeBase + BitVec.ofNat 64 (4 * pc)

/-- `BLR rn` at index `pc`: the link register points past the branch, and the host function runs. -/
def execCall (env : Env) (pc : Nat) (rn : Reg) (s : State) : Option State :=
  (env.call s.ext (s.readX rn) (s.writeX 30 (env.addrOf (pc + 1)))).map
    fun s' => { s' with ext := s.ext + 1 }

/-- A point of an execution: at an index of the code, or back at the caller. -/
inductive Config where
  | at (pc : Nat) (s : State)
  | returned (s : State)

/-- Continue at `pc + offset`, unless that lies before the code. -/
def branchTo (pc : Nat) (offset : Int) (s : State) : Option Config :=
  let t := (pc : Int) + offset
  if 0 ≤ t then some (.at t.toNat s) else none

/-- Execute the instruction `i` at index `pc`.  `RET` through the link register goes back to the
caller; other indirect branches leave the modelled code. -/
def execAt (env : Env) (pc : Nat) (i : Insn) (s : State) : Option Config :=
  match i with
  | .b false imm => branchTo pc imm.toInt s
  | .b true imm => branchTo pc imm.toInt (s.writeX 30 (env.addrOf (pc + 1)))
  | .bCond cond imm => branchTo pc (if cond.holds s.nzcv then imm.toInt else 1) s
  | .cbz nonzero imm rt => branchTo pc (if (s.readX rt != 0) = nonzero then imm.toInt else 1) s
  | .tbz nonzero bit imm rt =>
    branchTo pc (if (s.readX rt).getLsbD bit.toNat = nonzero then imm.toInt else 1) s
  | .blr rn => (execCall env pc rn s).map (.at (pc + 1))
  | .ret rn => if rn = 30 then some (.returned s) else none
  | i => (execData env i s).map (.at (pc + 1))

/-- One step of an execution of the words `code`. -/
def step (env : Env) (code : List Word) : Config → Option Config
  | .at pc s => do
    let w ← code[pc]?
    let i ← decode w
    execAt env pc i s
  | .returned _ => none

end Quantum.A64
