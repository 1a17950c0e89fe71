import Quantum.Jit.Equiv.ExchangeMemory
import Quantum.Jit.Equiv.FlagProducers
import Quantum.Jit.Equiv.Lea
import Quantum.Jit.Equiv.RetExit
import Quantum.Jit.Equiv.Shift

/-!
# The meaning of guest code

`Inst.exec` is what an instruction does to the registers and the memory of the guest, and `Inst.flagsAfter` what is
known of the flags behind it.  `Inst.goOn` is where the guest goes on behind an instruction that ends a block.

The lifter gets some operand forms wrong.  `Inst.Plain` are instructions and forms that it gets right; for these
the translation is compared with the meaning.
-/

namespace Quantum.Jit

/-- The guest between two instructions. -/
structure GuestMachine where
  regs : GpReg → BitVec 64
  mem : ByteMem
  seg : Seg → BitVec 64

namespace GuestMachine

variable (g : GuestMachine) (inst : Inst)

def setReg (r : GpReg) (v : BitVec 64) : GuestMachine :=
  { g with regs := Function.update g.regs r v }

@[simp]
theorem regs_setReg (r q : GpReg) (v : BitVec 64) : (g.setReg r v).regs q = if q = r then v else g.regs q := by
  simp [setReg, Function.update_apply]

@[simp] theorem mem_setReg (r : GpReg) (v : BitVec 64) : (g.setReg r v).mem = g.mem := rfl
@[simp] theorem seg_setReg (r : GpReg) (v : BitVec 64) : (g.setReg r v).seg = g.seg := rfl

/-- The address of a memory operand. -/
def address : Operand → BitVec 64
  | .mem m => m.address g.regs g.seg
  | .ripRel disp _ => inst.nextRip + disp.signExtend 64
  | _ => 0

/-- The value of an operand, zero-extended from its size. -/
def value : Operand → BitVec 64
  | .reg r size => size.zeroExtended (g.regs r)
  | .imm v _ => v
  | op => g.mem.read 64 op.memSize.bytes (g.address inst op)

/-- Write a value to an operand, at the size of the operand. -/
def assign (op : Operand) (v : BitVec 64) : GuestMachine :=
  match op with
  | .reg r size => g.setReg r (size.into (g.regs r) v)
  | .mem _ | .ripRel _ _ => { g with mem := g.mem.write op.memSize.bytes (g.address inst op) v }
  | _ => g

def push (v : BitVec 64) : GuestMachine where
  regs := Function.update g.regs .rsp (g.regs .rsp - 8#64)
  mem := g.mem.write 8 (g.regs .rsp - 8#64) v
  seg := g.seg

/-- The word on top of the stack, and the guest without it. -/
def pop : BitVec 64 × GuestMachine :=
  (g.mem.read 64 8 (g.regs .rsp), g.setReg .rsp (g.regs .rsp + 8#64))

/-- Exchange a register with an operand.  The address is the one from before. -/
def exchange (r : GpReg) (size : OpSize) (op : Operand) : GuestMachine :=
  (g.assign inst op (g.value inst (.reg r size))).assign inst (.reg r size) (g.value inst op)

end GuestMachine

/-! ### Flags -/

/-- Does the condition read the carry? -/
def Cond.readsCarry : Cond → Bool
  | .b | .nb | .be | .a => true
  | _ => false

/-- Flags by the instruction that set them.  They are those of the low parts of its operands. -/
structure FlagSource where
  k : FlagOp
  size : OpSize
  a : BitVec 64
  b : BitVec 64

namespace FlagSource

variable (f : FlagSource)

/-- `INC` and `DEC` keep a carry that is not known. -/
def Knows (cc : Cond) : Prop :=
  cc.readsCarry = true → f.k ≠ .inc ∧ f.k ≠ .dec

instance (cc : Cond) : Decidable (f.Knows cc) :=
  inferInstanceAs (Decidable (_ → _))

/-- Does the condition hold? -/
def answer (cc : Cond) : Option Bool :=
  if f.Knows cc then some ((f.k.guestFlags (f.a.setWidth f.size.bits) (f.b.setWidth f.size.bits) false).holds cc)
  else none

/-- The host's flags behind the code of the instruction, if it sets any. -/
def host : A64.Flags :=
  f.k.hostFlags default f.a f.b

/-- The host's answer is known to be the guest's. -/
structure AnswersRight (cc : Cond) : Prop where
  knows : f.Knows cc
  notParity : (Consumer.cond cc).NotParity
  right : FlagsRight f.k f.size.bits f.a f.b default false (.cond cc)

theorem AnswersRight.answer_eq {f : FlagSource} {cc : Cond} (h : f.AnswersRight cc) :
    f.answer cc = some ((condX86ToA64 cc).any (·.holds f.host)) := by
  have hright := (flagsRight_iff f.k f.size.bits_pos f.a f.b default false h.notParity).mpr h.right
  rw [answer, if_pos h.knows]
  exact congrArg some hright.symm

/-- A subtraction or comparison of 64-bit operands answers every condition right. -/
theorem answersRight_sub_b8 (a b : BitVec 64) {cc : Cond} (h : (Consumer.cond cc).NotParity) :
    (⟨.sub, .b8, a, b⟩ : FlagSource).AnswersRight cc where
  knows _ := ⟨nofun, nofun⟩
  notParity := h
  right := (flagsRight_sub_b8 a b default false (.cond cc)).mpr nofun

end FlagSource

/-- The 64-bit value of an operand: a whole register, or zero-extended. -/
def GuestMachine.wide (g : GuestMachine) (inst : Inst) : Operand → BitVec 64
  | .reg r _ => g.regs r
  | op => g.value inst op

/-- Instructions whose flags are followed. -/
def Op.flagOp : Op → Option FlagOp
  | .cmp | .sub => some .sub
  | .test => some .test
  | .add => some .add
  | .inc => some .inc
  | .dec => some .dec
  | .neg => some .neg
  | _ => none

def Op.keepsFlags : Op → Bool
  | .nop | .mov | .movzx | .movsx | .movsxd | .lea | .cqo | .xchg | .push | .pop | .leave | .not => true
  | _ => false

/-- What is known of the flags behind an instruction. -/
def Inst.flagsAfter (inst : Inst) (g : GuestMachine) (fl : Option FlagSource) : Option FlagSource :=
  match inst.op.flagOp, inst.operand0 with
  | some k, some dst => (k.second inst).map fun src => ⟨k, dst.memSize, g.wide inst dst, g.wide inst src⟩
  | _, _ => if inst.op.keepsFlags then fl else none

/-! ### Instructions -/

/-- The result of an instruction that combines its two operands; the low bits of the operand size count. -/
def Op.combine (op : Op) (a b : BitVec 64) : Option (BitVec 64) :=
  match op with
  | .add => some (a + b)
  | .sub => some (a - b)
  | .and => some (a &&& b)
  | .or => some (a ||| b)
  | .xor => some (a ^^^ b)
  | _ => none

def Op.IsBinary (op : Op) : Prop :=
  op = .add ∨ op = .sub ∨ op = .and ∨ op = .or ∨ op = .xor

/-- The result of an instruction with one operand. -/
def Op.change (op : Op) (a : BitVec 64) : Option (BitVec 64) :=
  match op with
  | .inc => some (a + 1)
  | .dec => some (a - 1)
  | .neg => some (-a)
  | .not => some (~~~a)
  | _ => none

def Op.IsUnary (op : Op) : Prop :=
  op = .inc ∨ op = .dec ∨ op = .neg ∨ op = .not

/-- The count of a shift: an immediate or `CL`, modulo 32 or, for 64-bit operands, 64. -/
def GuestMachine.count (g : GuestMachine) (size : OpSize) (amt : Operand) : Nat :=
  (match amt with
    | .imm imm _ => imm.toNat
    | _ => ((g.regs .rcx).setWidth 8).toNat) % (if size = .b8 then 64 else 32)

/-- What an instruction does to the guest; `none` has no meaning here. -/
def Inst.exec (inst : Inst) (g : GuestMachine) : Option GuestMachine :=
  match inst.op, inst.operand0, inst.operand1 with
  | .nop, _, _ => some g
  | .cmp, some _, some _ => some g
  | .test, some _, some _ => some g
  | .mov, some dst, some src => some (g.assign inst dst (g.value inst src))
  | .movzx, some dst, some src => some (g.assign inst dst (src.memSize.zeroExtended (g.value inst src)))
  | .movsx, some dst, some src => some (g.assign inst dst (src.memSize.signExtended (g.value inst src)))
  | .movsxd, some dst, some src => some (g.assign inst dst (src.memSize.signExtended (g.value inst src)))
  | .lea, some dst, some src => some (g.assign inst dst (leaAddress inst g.regs src))
  | .imul, some dst, some src =>
    let factor := inst.operand2.getD dst
    some (g.assign inst dst (g.value inst src * g.value inst factor))
  | .cqo, _, _ => some (g.setReg .rdx (OpSize.b8.signFill (g.regs .rax)))
  | .xchg, some (.reg r size), some op => some (g.exchange inst r size op)
  | .xchg, some op, some (.reg r size) => some (g.exchange inst r size op)
  | .push, some src, _ => some (g.push (g.value inst src))
  | .pop, some (.reg r _), _ => some (g.pop.2.setReg r g.pop.1)
  | .leave, _, _ =>
    let g := g.setReg .rsp (g.regs .rbp)
    some (g.pop.2.setReg .rbp g.pop.1)
  | op, some dst, none => (op.change (g.value inst dst)).map (g.assign inst dst)
  | op, some dst, some src =>
    match inst.shiftOp with
    | some shift =>
      some (g.assign inst dst (shift.result dst.memSize (g.value inst dst) (g.count dst.memSize src)))
    | none => (op.combine (g.value inst dst) (g.value inst src)).map (g.assign inst dst)
  | _, _, _ => none

/-- Where the guest goes on behind the last instruction of a block, and in what state. -/
def Inst.goOn (inst : Inst) (fl : Option FlagSource) (g : GuestMachine) : Option (BitVec 64 × GuestMachine) :=
  match inst.op, inst.operand0 with
  | .jmp, some (.imm rel _) => some (inst.nextRip + rel, g)
  | .jcc cc, some (.imm rel _) =>
    (fl.bind fun f => f.answer cc).map fun taken => (if taken then inst.nextRip + rel else inst.nextRip, g)
  | .call, some (.imm rel _) => some (inst.nextRip + rel, g.push inst.nextRip)
  | .jmpIndirect, some target => some (g.value inst target, g)
  | .ret, _ => some g.pop
  | .retImm, some (.imm n _) => some (g.pop.1, g.pop.2.setReg .rsp (g.pop.2.regs .rsp + n))
  | _, _ => none

/-- Straight-line code. -/
def execAll : List Inst → GuestMachine → Option FlagSource → Option (GuestMachine × Option FlagSource)
  | [], g, fl => some (g, fl)
  | inst :: insts, g, fl => (inst.exec g).bind fun g' => execAll insts g' (inst.flagsAfter g fl)

/-- What the translation of a last instruction does.  Where the bytes end in another instruction than a control
transfer, the block stops the dispatcher before it. -/
def exitMeaning (term : Inst) (fl : Option FlagSource) (g : GuestMachine) : Option (BitVec 64 × GuestMachine) :=
  if term.op.isTerminator then term.goOn fl g else some (STOP_SENTINEL, g)

/-- What a block does to the guest. -/
def blockMeaning (body : List Inst) (term : Inst) (g : GuestMachine) (fl : Option FlagSource) :
    Option (BitVec 64 × GuestMachine) :=
  (execAll body g fl).bind fun r => exitMeaning term r.2 r.1

/-! ### The instructions one by one -/

section Exec

variable {inst : Inst} {dst src : Operand} {r : GpReg} {size : OpSize} (fl : Option FlagSource) (g : GuestMachine)

theorem exec_nop (hop : inst.op = .nop) : inst.exec g = some g := by
  unfold Inst.exec
  rw [hop]

theorem exec_flags (hop : inst.op = .cmp ∨ inst.op = .test) (h0 : inst.operand0 = some dst)
    (h1 : inst.operand1 = some src) : inst.exec g = some g := by
  unfold Inst.exec
  rcases hop with hop | hop <;> rw [hop, h0, h1]

theorem exec_mov (hop : inst.op = .mov) (h0 : inst.operand0 = some dst) (h1 : inst.operand1 = some src) :
    inst.exec g = some (g.assign inst dst (g.value inst src)) := by
  unfold Inst.exec
  rw [hop, h0, h1]

theorem exec_extend {kind : ExtendKind} (hop : inst.extendKind = some kind) (h0 : inst.operand0 = some dst)
    (h1 : inst.operand1 = some src) :
    inst.exec g = some (g.assign inst dst (kind.result src.memSize (g.value inst src))) := by
  unfold Inst.extendKind at hop
  unfold Inst.exec
  split at hop <;> cases hop <;> rename_i hinst <;> rw [hinst, h0, h1] <;> rfl

theorem exec_lea (hop : inst.op = .lea) (h0 : inst.operand0 = some dst) (h1 : inst.operand1 = some src) :
    inst.exec g = some (g.assign inst dst (leaAddress inst g.regs src)) := by
  unfold Inst.exec
  rw [hop, h0, h1]

theorem exec_cqo (hop : inst.op = .cqo) :
    inst.exec g = some (g.setReg .rdx (OpSize.b8.signFill (g.regs .rax))) := by
  unfold Inst.exec
  rw [hop]

theorem exec_xchg {a b op : Operand} (hop : inst.op = .xchg) (h0 : inst.operand0 = some a)
    (h1 : inst.operand1 = some b) (hops : a = .reg r size ∧ b = op ∨ a = op ∧ b = .reg r size ∧ op.isMem = true) :
    inst.exec g = some (g.exchange inst r size op) := by
  unfold Inst.exec
  rcases hops with ⟨rfl, rfl⟩ | ⟨rfl, rfl, hmem⟩
  · rw [hop, h0, h1]
  · rw [hop, h0, h1]
    cases a with
    | mem | ripRel => rfl
    | _ => cases hmem

theorem exec_imul (hop : inst.op = .imul) (h0 : inst.operand0 = some dst) (h1 : inst.operand1 = some src) :
    inst.exec g = some (g.assign inst dst (g.value inst src * g.value inst (inst.operand2.getD dst))) := by
  unfold Inst.exec
  rw [hop, h0, h1]

theorem exec_shift {op : ShiftOp} (hop : inst.shiftOp = some op) (h0 : inst.operand0 = some dst)
    (h1 : inst.operand1 = some src) : inst.exec g = some (g.assign inst dst
      (op.result dst.memSize (g.value inst dst) (g.count dst.memSize src))) := by
  have hinst := hop
  unfold Inst.shiftOp at hinst
  unfold Inst.exec
  split at hinst <;> cases hinst <;> rename_i hname <;> rw [hname, h0, h1] <;> dsimp only <;> rw [hop]

/-- Instructions that combine their operands. -/
theorem exec_binary {f : BitVec 64 → BitVec 64 → BitVec 64} (hop : inst.op.IsBinary)
    (h0 : inst.operand0 = some dst) (h1 : inst.operand1 = some src)
    (hf : ∀ a b, inst.op.combine a b = some (f a b)) :
    inst.exec g = some (g.assign inst dst (f (g.value inst dst) (g.value inst src))) := by
  have hf' := hf (g.value inst dst) (g.value inst src)
  unfold Inst.exec Inst.shiftOp
  rcases hop with h | h | h | h | h <;> rw [h] at hf' <;> rw [h, h0, h1] <;>
    exact congrArg (Option.map (g.assign inst dst)) hf'

theorem exec_unary {f : BitVec 64 → BitVec 64} (hop : inst.op.IsUnary) (h0 : inst.operand0 = some dst)
    (h1 : inst.operand1 = none) (hf : ∀ a, inst.op.change a = some (f a)) :
    inst.exec g = some (g.assign inst dst (f (g.value inst dst))) := by
  have hf' := hf (g.value inst dst)
  unfold Inst.exec
  rcases hop with h | h | h | h <;> rw [h] at hf' <;> rw [h, h0, h1] <;>
    exact congrArg (Option.map (g.assign inst dst)) hf'

theorem exec_push (hop : inst.op = .push) (h0 : inst.operand0 = some src) :
    inst.exec g = some (g.push (g.value inst src)) := by
  unfold Inst.exec
  rw [hop, h0]

theorem exec_pop (hop : inst.op = .pop) (h0 : inst.operand0 = some (.reg r size)) :
    inst.exec g = some (g.pop.2.setReg r g.pop.1) := by
  unfold Inst.exec
  rw [hop, h0]

theorem exec_leave (hop : inst.op = .leave) : inst.exec g =
    some ((g.setReg .rsp (g.regs .rbp)).pop.2.setReg .rbp (g.setReg .rsp (g.regs .rbp)).pop.1) := by
  unfold Inst.exec
  rw [hop]

theorem goOn_jmp {rel : BitVec 64} (hop : inst.op = .jmp) (h0 : inst.operand0 = some (.imm rel size)) :
    inst.goOn fl g = some (inst.nextRip + rel, g) := by
  unfold Inst.goOn
  rw [hop, h0]

theorem goOn_jcc {cc : Cond} {rel : BitVec 64} {f : FlagSource} {taken : Bool} (hop : inst.op = .jcc cc)
    (h0 : inst.operand0 = some (.imm rel size)) (hf : f.answer cc = some taken) :
    inst.goOn (some f) g = some (if taken then inst.nextRip + rel else inst.nextRip, g) := by
  unfold Inst.goOn
  rw [hop, h0]
  dsimp only
  rw [Option.bind_some, hf, Option.map_some]

theorem goOn_call {rel : BitVec 64} (hop : inst.op = .call) (h0 : inst.operand0 = some (.imm rel size)) :
    inst.goOn fl g = some (inst.nextRip + rel, g.push inst.nextRip) := by
  unfold Inst.goOn
  rw [hop, h0]

theorem goOn_jmpIndirect (hop : inst.op = .jmpIndirect) (h0 : inst.operand0 = some src) :
    inst.goOn fl g = some (g.value inst src, g) := by
  unfold Inst.goOn
  rw [hop, h0]

theorem goOn_ret (hop : inst.op = .ret) : inst.goOn fl g = some g.pop := by
  unfold Inst.goOn
  rw [hop]

theorem goOn_retImm {n : BitVec 64} (hop : inst.op = .retImm) (h0 : inst.operand0 = some (.imm n size)) :
    inst.goOn fl g = some (g.pop.1, g.pop.2.setReg .rsp (g.pop.2.regs .rsp + n)) := by
  unfold Inst.goOn
  rw [hop, h0]

end Exec

/-! ### Forms that the lifter gets right -/

/-- A value of this size fills the whole register. -/
def OpSize.IsWide (size : OpSize) : Prop :=
  size = .b4 ∨ size = .b8

instance (size : OpSize) : Decidable size.IsWide :=
  inferInstanceAs (Decidable (_ ∨ _))

/-- A register of 32 or 64 bits, or a memory operand whose offset has an encoding. -/
def Operand.IsDest : Operand → Prop
  | .reg _ size => size.IsWide
  | .mem m => Fits m.size.bytes m.leftover
  | .ripRel _ _ => True
  | _ => False

instance : (op : Operand) → Decidable op.IsDest
  | .reg _ size => inferInstanceAs (Decidable size.IsWide)
  | .mem m => inferInstanceAs (Decidable (Fits m.size.bytes m.leftover))
  | .ripRel _ _ => isTrue trivial
  | .imm _ _ => isFalse id
  | .xmmReg _ _ => isFalse id

def Operand.IsSource : Operand → Prop
  | .mem m => Fits m.size.bytes m.leftover
  | .xmmReg _ _ => False
  | _ => True

instance : (op : Operand) → Decidable op.IsSource
  | .reg _ _ => isTrue trivial
  | .mem m => inferInstanceAs (Decidable (Fits m.size.bytes m.leftover))
  | .ripRel _ _ => isTrue trivial
  | .imm _ _ => isTrue trivial
  | .xmmReg _ _ => isFalse id

theorem Operand.IsSource.ne_xmm {op : Operand} (h : op.IsSource) : ∀ n size, op ≠ .xmmReg n size := by
  rintro n size rfl
  exact h

theorem Operand.IsDest.ne_xmm {op : Operand} (h : op.IsDest) : ∀ n size, op ≠ .xmmReg n size := by
  rintro n size rfl
  exact h

theorem ne_xmm_of_isMem {op : Operand} (h : op.isMem = true) : ∀ n size, op ≠ .xmmReg n size := by
  rintro n size rfl
  cases h

/-- The source has the size of the destination; an immediate has any. -/
def SameSize (dst src : Operand) : Prop :=
  match src with
  | .imm _ _ => True
  | _ => src.memSize = dst.memSize

instance (dst : Operand) : (src : Operand) → Decidable (SameSize dst src)
  | .reg r size => decEq (Operand.reg r size).memSize dst.memSize
  | .mem m => decEq (Operand.mem m).memSize dst.memSize
  | .ripRel d size => decEq (Operand.ripRel d size).memSize dst.memSize
  | .imm _ _ => isTrue trivial
  | .xmmReg n size => decEq (Operand.xmmReg n size).memSize dst.memSize

/-- The address code of the operand leaves `X17` alone. -/
def Operand.SparesX17 : Operand → Prop
  | .mem m => m.addsVia17 = false
  | _ => True

instance : (op : Operand) → Decidable op.SparesX17
  | .mem m => decEq m.addsVia17 false
  | .reg _ _ => isTrue trivial
  | .ripRel _ _ => isTrue trivial
  | .imm _ _ => isTrue trivial
  | .xmmReg _ _ => isTrue trivial

/-- A destination and a source of one size. -/
structure PlainPair (dst src : Operand) : Prop where
  dest : dst.IsDest
  source : src.IsSource
  same : SameSize dst src

/-- The operands of an instruction that combines them: an immediate meets a memory operand in `X17`, and the address
is computed again after that. -/
structure PlainAlu (dst src : Operand) : Prop extends PlainPair dst src where
  spares : ∀ v size, src = .imm v size → dst.SparesX17

/-- Two operands that are compared or tested. -/
structure PlainCompare (a b : Operand) : Prop where
  first : a.IsSource
  second : b.IsSource
  same : SameSize a b
  imm : b.ImmOk

/-- The operand of a `PUSH`: a whole register other than the stack pointer, or an immediate. -/
def PlainPush (src : Operand) : Prop :=
  (∃ r, src = .reg r .b8 ∧ r ≠ .rsp) ∨ ∃ v size, src = .imm v size

/-- An instruction with a meaning, in a form that the lifter gets right. -/
inductive Inst.Plain (inst : Inst) : Prop where
  | nop (hop : inst.op = .nop)
  | cqo (hop : inst.op = .cqo)
  | leave (hop : inst.op = .leave)
  | push {src : Operand} (hop : inst.op = .push) (h0 : inst.operand0 = some src) (hsrc : PlainPush src)
  | pop {r : GpReg} {size : OpSize} (hop : inst.op = .pop) (h0 : inst.operand0 = some (.reg r size)) (hr : r ≠ .rsp)
  | compare {a b : Operand} (hop : inst.op = .cmp ∨ inst.op = .test) (h0 : inst.operand0 = some a)
    (h1 : inst.operand1 = some b) (hpair : PlainCompare a b)
  | mov {dst src : Operand} (hop : inst.op = .mov) (h0 : inst.operand0 = some dst) (h1 : inst.operand1 = some src)
    (hpair : PlainPair dst src)
  | extend {kind : ExtendKind} {r : GpReg} {size : OpSize} {src : Operand} (hop : inst.extendKind = some kind)
    (h0 : inst.operand0 = some (.reg r size)) (h1 : inst.operand1 = some src) (hok : ExtendOk kind size src)
    (hsrc : src.IsSource)
  | lea {r : GpReg} {size : OpSize} {src : Operand} (hop : inst.op = .lea)
    (h0 : inst.operand0 = some (.reg r size)) (h1 : inst.operand1 = some src) (hsize : size.IsWide)
    (hmem : src.isMem = true) (hok : LeaOk r src)
  | xchg {a b : GpReg} (hop : inst.op = .xchg) (h0 : inst.operand0 = some (.reg a .b8))
    (h1 : inst.operand1 = some (.reg b .b8))
  | xchgMem {r : GpReg} {a b m : Operand} (hop : inst.op = .xchg) (h0 : inst.operand0 = some a)
    (h1 : inst.operand1 = some b) (hops : a = .reg r m.memSize ∧ b = m ∨ a = m ∧ b = .reg r m.memSize)
    (hmem : m.isMem = true) (hsize : m.memSize.IsWide) (hfit : Fits m.memSize.bytes m.leftover)
  | binary {dst src : Operand} (hop : inst.op.IsBinary) (h0 : inst.operand0 = some dst)
    (h1 : inst.operand1 = some src) (hpair : PlainAlu dst src) (himm : inst.op = .add ∨ inst.op = .sub → src.ImmOk)
  | unary {dst : Operand} (hop : inst.op.IsUnary) (h0 : inst.operand0 = some dst) (h1 : inst.operand1 = none)
    (hdst : dst.IsDest)
  | imul {r : GpReg} {size : OpSize} {src : Operand} (hop : inst.op = .imul)
    (h0 : inst.operand0 = some (.reg r size)) (h1 : inst.operand1 = some src) (hpair : PlainPair (.reg r size) src)
    (hfactor : ∀ op, inst.operand2 = some op → ∃ v sz, op = .imm v sz)
  | shift {op : ShiftOp} {r : GpReg} {size : OpSize} {amt : Operand} (hop : inst.shiftOp = some op)
    (h0 : inst.operand0 = some (.reg r size)) (h1 : inst.operand1 = some amt) (hok : ShiftOk op size amt)

/-- A control transfer with a meaning, in a form that the translation gets right. -/
inductive Inst.PlainExit (term : Inst) : Prop where
  | jmp {rel : BitVec 64} {size : OpSize} (hop : term.op = .jmp) (h0 : term.operand0 = some (.imm rel size))
  | jcc {cc : Cond} {rel : BitVec 64} {size : OpSize} (hop : term.op = .jcc cc)
    (h0 : term.operand0 = some (.imm rel size))
  | call {rel : BitVec 64} {size : OpSize} (hop : term.op = .call) (h0 : term.operand0 = some (.imm rel size))
  | jmpReg {r : GpReg} (hop : term.op = .jmpIndirect) (h0 : term.operand0 = some (.reg r .b8))
  | jmpMem {m : Operand} (hop : term.op = .jmpIndirect) (h0 : term.operand0 = some m) (hmem : m.isMem = true)
    (hsize : m.memSize = .b8) (hfit : Fits 8 m.leftover)
  | ret (hop : term.op = .ret)
  | retImm {n : BitVec 64} {size : OpSize} (hop : term.op = .retImm) (h0 : term.operand0 = some (.imm n size))
    (hn : n.toNat < 65536)

/-- The flags that a `Jcc` reads are known, and the host's answer is right. -/
def Inst.AsksRight (inst : Inst) (fl : Option FlagSource) : Prop :=
  ∀ cc, inst.op = .jcc cc → ∃ f ∈ fl, f.AnswersRight cc

/-- The block asks only where the host's answer is right. -/
def BlockAsksRight (body : List Inst) (term : Inst) (g : GuestMachine) (fl : Option FlagSource) : Prop :=
  ∀ r, execAll body g fl = some r → term.AsksRight r.2

section Plain

variable {inst : Inst}

theorem Inst.Plain.not_terminator (h : inst.Plain) : inst.op.isTerminator = false := by
  cases h with
  | nop hop | cqo hop | leave hop | push hop | pop hop | mov hop | lea hop | xchg hop | xchgMem hop
  | imul hop => rw [hop]; rfl
  | compare hop => rcases hop with h | h <;> rw [h] <;> rfl
  | binary hop => rcases hop with h | h | h | h | h <;> rw [h] <;> rfl
  | unary hop => rcases hop with h | h | h | h <;> rw [h] <;> rfl
  | extend hop h0 h1 hok hsrc =>
    unfold Inst.extendKind at hop
    split at hop <;> cases hop <;> rename_i h <;> rw [h] <;> rfl
  | shift hop h0 h1 hok =>
    unfold Inst.shiftOp at hop
    split at hop <;> cases hop <;> rename_i h <;> rw [h] <;> rfl

theorem Inst.PlainExit.terminator (h : inst.PlainExit) : inst.op.isTerminator = true := by
  cases h with
  | jmp hop | jcc hop | call hop | jmpReg hop | jmpMem hop | ret hop | retImm hop => rw [hop]; rfl

end Plain

end Quantum.Jit
