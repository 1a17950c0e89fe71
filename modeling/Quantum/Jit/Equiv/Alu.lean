import Quantum.Jit.Equiv.Compare

/-!
# Arithmetic and logic on operands

The two-operand instructions load their operands into registers, combine them with one host
instruction, mask the result at size `B4`, and write it back.  An `Alu` says what the combining
instruction computes, from the flags and the 64-bit host values of the operands, and `Performs` says
that code has this effect on the guest's registers and the host's flags.  There is one lemma per
operand form, for any code that combines two registers (`performs_regReg`, `performs_regMem`,
`performs_memReg`, `performs_memImm`), and one per lift function.
-/

namespace Quantum.Jit

open A64
open EmitM

variable {p : Profile}

/-! ### Guest registers after a write -/

@[simp]
theorem guest_writeX_hostReg (s : State) (r : GpReg) (v : BitVec 64) :
    guest (s.writeX (hostReg r) v) = Function.update (guest s) r v := by
  funext g
  simp [guest, Function.update_apply]

@[simp]
theorem guest_writeX_16 (s : State) (v : BitVec 64) : guest (s.writeX 16#5 v) = guest s := by
  funext g
  simp [guest]

@[simp]
theorem guest_writeX_17 (s : State) (v : BitVec 64) : guest (s.writeX 17#5 v) = guest s := by
  funext g
  simp [guest]

@[simp] theorem guest_nzcv (s : State) (f : A64.Flags) : guest { s with nzcv := f } = guest s := rfl
@[simp] theorem guest_mem (s : State) (m : ByteMem) : guest { s with mem := m } = guest s := rfl

/-! ### The mask of a 32-bit result -/

/-- A result as `maskB4` leaves it. -/
def maskVal (size : OpSize) (v : BitVec 64) : BitVec 64 :=
  if size = .b4 then v &&& 0xFFFFFFFF#64 else v

theorem execOne_andImmLo32 {env : Env} {pc : Nat} (s : State) (rn : Reg) {rd : Reg}
    (hrd : rd ≠ 31#5) :
    execOne env pc (.andImm 31 rn rd) s = some (s.writeX rd (s.readX rn &&& 0xFFFFFFFF#64)) := by
  rw [s.writeX_of_ne _ _ hrd]
  rfl

theorem emits_emitAndImmLo32 {rd rn : Reg} {Q : Unit → List (Option Insn) → Prop}
    (h : Q () [some (.andImm 31 rn rd)]) : Emits p (emitAndImmLo32 rd rn) Q :=
  Emits.push (by rw [decode_andImm_lo32]; exact h)

theorem emits_maskB4 {size : OpSize} {rd : Reg} (hrd : rd ≠ 31#5)
    {Q : Unit → List (Option Insn) → Prop}
    (h : ∀ is, Sets rd (fun s => maskVal size (s.x rd)) is → Q () is) :
    Emits p (maskB4 size rd) Q := by
  unfold maskB4
  unfold maskVal at h
  split
  · rename_i hb4
    simp only [if_pos hb4] at h
    refine emits_emitAndImmLo32 (h _ fun env pc s => ?_)
    rw [runSeq_cons, execOne_andImmLo32 s rd hrd, s.readX_of_ne _ hrd]
    rfl
  · rename_i hb4
    simp only [if_neg hb4] at h
    refine Emits.pure (h _ fun env pc s => ?_)
    rw [State.writeX_x_self]
    rfl

/-! ### What the combining instruction computes -/

/-- The result and the flags of an instruction, from the flags before it and two values. -/
structure Alu where
  result : A64.Flags → BitVec 64 → BitVec 64 → BitVec 64
  flags : A64.Flags → BitVec 64 → BitVec 64 → A64.Flags

namespace Alu

/-- The adder, with `carry` as carry in. -/
def adder (sub : Bool) (carry : A64.Flags → Bool) : Alu where
  result f a b := addc a (adderOperand sub b) (carry f)
  flags f a b := A64.addFlags a (adderOperand sub b) (carry f)

/-- A logical operation that leaves the flags. -/
def logic (op : LogicOp) : Alu where
  result _ a b := execLogic op a b
  flags f _ _ := f

/-- The operation with a fixed second operand. -/
def withRight (alu : Alu) (b : BitVec 64) : Alu where
  result f a _ := alu.result f a b
  flags f a _ := alu.flags f a b

/-- The operation of zero and its operand. -/
def ofZero (alu : Alu) : Alu where
  result f a _ := alu.result f 0 a
  flags f a _ := alu.flags f 0 a

/-- The state with the masked result of `a` and `b` in `rd`, and the flags. -/
def write (alu : Alu) (size : OpSize) (rd : Reg) (a b : BitVec 64) (s : State) : State :=
  { s.writeX rd (maskVal size (alu.result s.nzcv a b)) with nzcv := alu.flags s.nzcv a b }

theorem withRight_write (alu : Alu) (b : BitVec 64) (size : OpSize) (rd : Reg) (a c : BitVec 64)
    (s : State) : (alu.withRight b).write size rd a c s = alu.write size rd a b s := rfl

end Alu

/-- The code combines `ra` and `rb` into `rd`. -/
def Combines (alu : Alu) (size : OpSize) (rd ra rb : Reg) (is : List (Option Insn)) : Prop :=
  ∀ env pc s, runSeq env pc is s = some (alu.write size rd (s.x ra) (s.x rb) s)

/-- One instruction that combines, then the mask. -/
theorem Combines.mask {alu : Alu} {size : OpSize} {rd ra rb : Reg} (hrd : rd ≠ 31#5) {i : Insn}
    {js : List (Option Insn)}
    (hi : ∀ env pc s, execOne env pc i s = some (alu.write .b8 rd (s.x ra) (s.x rb) s))
    (hjs : Sets rd (fun s => maskVal size (s.x rd)) js) :
    Combines alu size rd ra rb ([some i] ++ js) := by
  intro env pc s
  rw [runSeq_append, runSeq_cons, hi]
  simp only [Option.bind_some, runSeq_nil]
  rw [hjs]
  -- the mask reads the unmasked result and overwrites it
  simp only [Alu.write, State.writeX_of_ne _ _ _ hrd, Function.update_idem, Function.update_self]
  rfl

theorem execOne_addSubShift {env : Env} {pc : Nat} (s : State) (sub : Bool) (rm rn rd : Reg) :
    execOne env pc (.addSubShift sub true rm 0 rn rd) s
      = some ((Alu.adder sub fun _ => sub).write .b8 rd (s.readX rn) (s.readX rm) s) := by
  show some { s.writeX rd (addc (s.readX rn) (adderOperand sub (s.readX rm <<< 0)) sub) with
    nzcv := A64.addFlags (s.readX rn) (adderOperand sub (s.readX rm <<< 0)) sub } = _
  rw [BitVec.shiftLeft_zero]
  rfl

theorem execOne_addSubImm {env : Env} {pc : Nat} (s : State) (sub : Bool) (sh : Bool)
    (i : BitVec 12) (rn rd : Reg) :
    execOne env pc (.addSubImm sub true sh i rn rd) s
      = some ((Alu.adder sub fun _ => sub).write .b8 rd (s.x rn) (immValue sh i) s) := rfl

theorem execOne_logicShift {env : Env} {pc : Nat} (s : State) {op : LogicOp} (hop : op ≠ .ands)
    (rm rn rd : Reg) :
    execOne env pc (.logicShift op rm 0 rn rd) s
      = some ((Alu.logic op).write .b8 rd (s.readX rn) (s.readX rm) s) := by
  show some (if op = .ands then _
    else s.writeX rd (execLogic op (s.readX rn) (s.readX rm <<< 0))) = _
  rw [if_neg hop, BitVec.shiftLeft_zero, Alu.write, ← State.writeX_nzcv s rd]
  rfl

/-- The code that `emit` writes combines any two registers into any third. -/
def Binary (p : Profile) (alu : Alu) (emit : Reg → Reg → Reg → OpSize → LiftM Unit) : Prop :=
  ∀ ⦃rd ra rb : Reg⦄ ⦃size : OpSize⦄, rd ≠ 31#5 → ra ≠ 31#5 → rb ≠ 31#5 →
    Emits p (emit rd ra rb size) fun _ is => Combines alu size rd ra rb is

/-- The operation of `ADD` and `SUB`. -/
def ArithKind.alu : ArithKind → Alu
  | .add => Alu.adder false fun _ => false
  | .sub => Alu.adder true fun _ => true

/-- The operation of `AND` and `OR`. -/
def BitOp.alu : BitOp → Alu
  | .and => Alu.logic .and
  | .or => Alu.logic .orr

theorem binary_emitArithRr (kind : ArithKind) : Binary p kind.alu (emitArithRr kind) := by
  intro rd ra rb size hrd hra hrb
  have hi : ∀ (sub : Bool) env pc (s : State), execOne env pc (.addSubShift sub true rb 0 ra rd) s
      = some ((Alu.adder sub fun _ => sub).write .b8 rd (s.x ra) (s.x rb) s) := by
    intro sub env pc s
    rw [execOne_addSubShift, s.readX_of_ne _ hra, s.readX_of_ne _ hrb]
  cases kind with
  | add =>
    exact Emits.bind (emits_adds64 (emits_maskB4 hrd fun js hjs => Combines.mask hrd (hi _) hjs))
  | sub =>
    exact Emits.bind (emits_subs64 (emits_maskB4 hrd fun js hjs => Combines.mask hrd (hi _) hjs))

theorem combines_logic {op : LogicOp} (hop : op ≠ .ands) {rd ra rb : Reg} {size : OpSize}
    (hrd : rd ≠ 31#5) (hra : ra ≠ 31#5) (hrb : rb ≠ 31#5) {js : List (Option Insn)}
    (hjs : Sets rd (fun s => maskVal size (s.x rd)) js) :
    Combines (.logic op) size rd ra rb ([some (.logicShift op rb 0 ra rd)] ++ js) := by
  refine Combines.mask hrd (fun env pc s => ?_) hjs
  rw [execOne_logicShift s hop, s.readX_of_ne _ hra, s.readX_of_ne _ hrb]

theorem binary_emitBitopRr (op : BitOp) : Binary p op.alu (emitBitopRr op) := by
  intro rd ra rb size hrd hra hrb
  cases op with
  | and =>
    exact Emits.bind (emits_and64 (emits_maskB4 hrd fun js hjs =>
      combines_logic (by decide) hrd hra hrb hjs))
  | or =>
    exact Emits.bind (emits_orr64 (emits_maskB4 hrd fun js hjs =>
      combines_logic (by decide) hrd hra hrb hjs))

theorem binary_emitXorRr : Binary p (.logic .eor) emitXorRr := by
  intro rd ra rb size hrd hra hrb
  exact Emits.bind (emits_eor64 (emits_maskB4 hrd fun js hjs =>
    combines_logic (by decide) hrd hra hrb hjs))

/-! ### Operand forms -/

/-- The guest registers once the instruction has written `v` to its first operand. -/
def destRegs (op : Operand) (v : BitVec 64) (g : GpReg → BitVec 64) : GpReg → BitVec 64 :=
  match op with
  | .reg r size => Function.update g r (maskVal size v)
  | _ => g

/-- The 64-bit value the host has for an operand, loaded at its own size. -/
def hostValue (inst : Inst) (s : State) (op : Operand) : BitVec 64 :=
  operandValue inst s op.memSize op

/-- The code runs, with the given effect on the flags and the guest registers. -/
def Effect (flags : State → A64.Flags) (regs : State → GpReg → BitVec 64)
    (is : List (Option Insn)) : Prop :=
  ∀ env pc s, ∃ s', runSeq env pc is s = some s' ∧ s'.nzcv = flags s ∧ guest s' = regs s

/-- Code that changes neither, before code with an effect. -/
theorem Effect.append {flags flags' : State → A64.Flags} {regs regs' : State → GpReg → BitVec 64}
    {is js : List (Option Insn)} {f : State → State}
    (hf : ∀ env pc s, runSeq env pc is s = some (f s)) (h : Effect flags regs js)
    (hflags : ∀ s, flags (f s) = flags' s) (hregs : ∀ s, regs (f s) = regs' s) :
    Effect flags' regs' (is ++ js) := by
  intro env pc s
  obtain ⟨s', hs', hn, hg⟩ := h env (pc + is.length) (f s)
  refine ⟨s', ?_, hn.trans (hflags s), hg.trans (hregs s)⟩
  rw [runSeq_append, hf, Option.bind_some, hs']

/-- Code after which the flags and the guest registers do not change any more. -/
theorem Effect.extend {flags : State → A64.Flags} {regs : State → GpReg → BitVec 64}
    {is js : List (Option Insn)} (h : Effect flags regs is)
    (hj : Effect (fun s => s.nzcv) guest js) : Effect flags regs (is ++ js) := by
  intro env pc s
  obtain ⟨s₁, hs₁, hn₁, hg₁⟩ := h env pc s
  obtain ⟨s₂, hs₂, hn₂, hg₂⟩ := hj env (pc + is.length) s₁
  refine ⟨s₂, ?_, hn₂.trans hn₁, hg₂.trans hg₁⟩
  rw [runSeq_append, hs₁, Option.bind_some, hs₂]

/-- The code combines the host values of `oa` and `ob` and writes the result to `oa`. -/
def Performs (inst : Inst) (alu : Alu) (oa ob : Operand) (is : List (Option Insn)) : Prop :=
  Effect (fun s => alu.flags s.nzcv (hostValue inst s oa) (hostValue inst s ob))
    (fun s => destRegs oa (alu.result s.nzcv (hostValue inst s oa) (hostValue inst s ob)) (guest s))
    is

section Forms

variable {inst : Inst} {alu : Alu} {is : List (Option Insn)}

/-- Combining into a guest register. -/
theorem Combines.effect {size : OpSize} {rd : GpReg} {ra rb : Reg}
    (h : Combines alu size (hostReg rd) ra rb is) :
    Effect (fun s => alu.flags s.nzcv (s.x ra) (s.x rb))
      (fun s => Function.update (guest s) rd
        (maskVal size (alu.result s.nzcv (s.x ra) (s.x rb)))) is := by
  intro env pc s
  exact ⟨_, h env pc s, rfl, guest_writeX_hostReg s rd _⟩

/-- Combining into the scratch register. -/
theorem Combines.effect_17 {size : OpSize} {ra rb : Reg} (h : Combines alu size 17#5 ra rb is) :
    Effect (fun s => alu.flags s.nzcv (s.x ra) (s.x rb)) guest is := by
  intro env pc s
  exact ⟨_, h env pc s, rfl, guest_writeX_17 s _⟩

theorem performs_regReg {rd rs : GpReg} {size sz : OpSize}
    (h : Combines alu size (hostReg rd) (hostReg rd) (hostReg rs) is) :
    Performs inst alu (.reg rd size) (.reg rs sz) is :=
  h.effect

/-- A register and a constant in a scratch register. -/
theorem performs_regImm {rd : GpReg} {r : Reg} (hr : IsScratch r) {size sz : OpSize}
    {v : BitVec 64} {js : List (Option Insn)} (hc : LoadsConst r v is)
    (h : Combines alu size (hostReg rd) (hostReg rd) r js) :
    Performs inst alu (.reg rd size) (.imm v sz) (is ++ js) := by
  have hg : ∀ s : State, guest (s.writeX r v) = guest s := by
    intro s
    rcases hr with rfl | rfl <;> simp
  have hx : ∀ s : State, (s.writeX r v).x (hostReg rd) = guest s rd := by
    intro s
    exact congrFun (hg s) rd
  refine Effect.append hc.run h.effect (fun s => ?_) (fun s => ?_)
  · rw [hx, State.writeX_nzcv, State.x_writeX, if_pos ⟨rfl, hr.ne_31⟩]
    rfl
  · rw [hx, State.writeX_nzcv, State.x_writeX, if_pos ⟨rfl, hr.ne_31⟩, hg]
    rfl

/-- A loaded operand in `X17`, with its address in `X16`. -/
def Loads (inst : Inst) (m : Operand) (is : List (Option Insn)) : Prop :=
  ∀ env pc s, runSeq env pc is s
    = some ((s.writeX 16#5 (effectiveAddress inst s m - m.leftover.setWidth 64)).writeX 17#5
      (memValue inst s m.memSize m))

/-- The code puts the value of an operand in `X17`, and perhaps an address in `X16`. -/
def PutsIn17 (inst : Inst) (op : Operand) (is : List (Option Insn)) : Prop :=
  ∃ a : State → BitVec 64, ∀ env pc s, runSeq env pc is s
    = some ((s.writeX 16#5 (a s)).writeX 17#5 (hostValue inst s op))

theorem effect_store {size : OpSize} {offset : BitVec 32} (hfit : Fits size.bytes offset) :
    Effect (fun s => s.nzcv) guest [some (storeInsn size 17#5 16#5 offset)] := by
  intro env pc s
  exact ⟨_, runSeq_storeInsn hfit, rfl, rfl⟩

theorem effect_addrCode {m : Operand} (h : AddrCode inst m is) :
    Effect (fun s => s.nzcv) guest is := by
  intro env pc s
  obtain ⟨t, ht⟩ := h env pc s
  exact ⟨_, ht, by simp, by simp⟩

end Forms

variable {inst : Inst} {alu : Alu}

theorem emits_loadOperand_memSize {m : Operand} {Q : BitVec 32 → List (Option Insn) → Prop}
    (hok : AccessOk p m m.memSize)
    (h : ∀ is, Fits m.memSize.bytes m.leftover → Loads inst m is → Q m.leftover is) :
    Emits p (loadOperand m inst m.memSize) Q :=
  emits_loadOperand hok fun is hfit hrun => h is hfit hrun

theorem hostValue_of_isMem {m : Operand} (hm : m.isMem = true) (s : State) :
    hostValue inst s m = memValue inst s m.memSize m := by
  cases m <;> first | rfl | cases hm

theorem destRegs_of_isMem {m : Operand} (hm : m.isMem = true) (v : BitVec 64)
    (g : GpReg → BitVec 64) : destRegs m v g = g := by
  cases m <;> first | rfl | cases hm

theorem performs_regMem {emit : Reg → LiftM Unit} {rd : GpReg} {size : OpSize} {m : Operand}
    (hm : m.isMem = true) (hok : AccessOk p m m.memSize)
    (h : Emits p (emit 17#5) fun _ is => Combines alu size (hostReg rd) (hostReg rd) 17#5 is) :
    Emits p (regMemOp inst m emit) fun _ is => Performs inst alu (.reg rd size) m is := by
  refine Emits.bind (emits_loadOperand_memSize hok fun is _ hl => h.mono fun _ js hc => ?_)
  refine Effect.append hl hc.effect (fun s => ?_) (fun s => ?_)
  · rw [hostValue_of_isMem hm]
    simp [hostValue, operandValue, guest]
  · rw [hostValue_of_isMem hm]
    simp [hostValue, operandValue, guest, destRegs]

/-- `[mem]` with a register that holds `ob` once the memory operand is loaded. -/
theorem performs_memOp {emit : LiftM Unit} {rb : Reg} {size : OpSize} {m ob : Operand}
    (hm : m.isMem = true) (hok : AccessOk p m m.memSize)
    (hrb : ∀ (s : State) (a : BitVec 64),
      ((s.writeX 16#5 a).writeX 17#5 (memValue inst s m.memSize m)).x rb = hostValue inst s ob)
    (h : Emits p emit fun _ is => Combines alu size 17#5 17#5 rb is) :
    Emits p (memRegOp inst m emit) fun _ is => Performs inst alu m ob is := by
  refine Emits.bind (emits_loadOperand_memSize hok fun is hfit hl =>
    Emits.bind (h.mono fun _ js hc => emits_storeSized (.inr hfit) fun _ => ?_))
  refine Effect.append hl (hc.effect_17.extend (effect_store hfit)) (fun s => ?_) (fun s => ?_)
  · rw [hostValue_of_isMem hm, hrb]
    simp
  · rw [destRegs_of_isMem hm]
    simp

theorem performs_memReg {emit : LiftM Unit} {rs : GpReg} {size sz : OpSize} {m : Operand}
    (hm : m.isMem = true) (hok : AccessOk p m m.memSize)
    (h : Emits p emit fun _ is => Combines alu size 17#5 17#5 (hostReg rs) is) :
    Emits p (memRegOp inst m emit) fun _ is => Performs inst alu m (.reg rs sz) is :=
  performs_memOp hm hok (fun s a => by simp [hostValue, operandValue, guest]) h

/-- `[mem], imm`: the address is computed again before the store, which may clobber `X17`. -/
theorem performs_memImm {emit : LiftM Unit} {size sz : OpSize} {m : Operand} {v : BitVec 64}
    (hm : m.isMem = true) (hok : AccessOk p m m.memSize)
    (h : Emits p emit fun _ is => Combines alu size 17#5 17#5 16#5 is) :
    Emits p (memImmOp inst m v emit) fun _ is => Performs inst alu m (.imm v sz) is := by
  refine Emits.bind (emits_loadOperand_memSize hok fun is hfit hl =>
    Emits.bind (emits_loadConst64 (by decide) v fun is₁ hc₁ => Emits.bind (h.mono fun _ js hc =>
      Emits.bind (emits_addrIntoXtmp fun is₂ ha => emits_storeSized (.inr hfit) fun _ => ?_))))
  have hrest : Effect (fun s => alu.flags s.nzcv (s.x 17#5) v) guest
      (is₁ ++ (js ++ (is₂ ++ [some (storeInsn m.memSize 17#5 16#5 m.leftover)]))) :=
    Effect.append hc₁.run
      (hc.effect_17.extend ((effect_addrCode ha).extend (effect_store hfit)))
      (fun s => by simp) (fun s => by simp)
  refine Effect.append hl hrest (fun s => ?_) (fun s => ?_)
  · rw [hostValue_of_isMem hm]
    simp [hostValue, operandValue]
  · rw [destRegs_of_isMem hm]
    simp

/-! ### The lift functions -/

/-- The forms that `ADD`, `SUB`, `AND`, `OR` and `XOR` share: all but a register with a register or an
immediate. -/
theorem performs_memForms (inst : Inst) (op : Op) {emit : Reg → Reg → Reg → OpSize → LiftM Unit}
    (hbin : Binary p alu emit) {oa ob : Operand} (ha : AccessOk p oa oa.memSize)
    (hb : AccessOk p ob ob.memSize) :
    Emits p (match oa, ob with
      | .reg rd size, .mem m =>
        regMemOp inst (.mem m) fun r => emit (hostReg rd) (hostReg rd) r size
      | .reg rd size, .ripRel d s =>
        regMemOp inst (.ripRel d s) fun r => emit (hostReg rd) (hostReg rd) r size
      | .mem m, .reg rs _ => memRegOp inst (.mem m) (emit 17 17 (hostReg rs) m.size)
      | .ripRel d s, .reg rs _ => memRegOp inst (.ripRel d s) (emit 17 17 (hostReg rs) s)
      | .mem m, .imm imm _ => memImmOp inst (.mem m) imm (emit 17 17 16 m.size)
      | .ripRel d s, .imm imm _ => memImmOp inst (.ripRel d s) imm (emit 17 17 16 s)
      | _, _ => unsupported op : LiftM Unit)
      fun _ is => Performs inst alu oa ob is := by
  have hr : ∀ r : GpReg, hostReg r ≠ 31#5 := hostReg_ne_31
  have h17 : (17#5 : Reg) ≠ 31#5 := by decide
  have h16 : (16#5 : Reg) ≠ 31#5 := by decide
  cases oa with
  | reg rd size =>
    cases ob with
    | mem m => exact performs_regMem rfl hb (hbin (hr rd) (hr rd) h17)
    | ripRel d s => exact performs_regMem rfl hb (hbin (hr rd) (hr rd) h17)
    | _ => exact Emits.fail
  | mem m =>
    cases ob with
    | reg rs sz => exact performs_memReg rfl ha (hbin h17 h17 (hr rs))
    | imm v sz => exact performs_memImm rfl ha (hbin h17 h17 h16)
    | _ => exact Emits.fail
  | ripRel d s =>
    cases ob with
    | reg rs sz => exact performs_memReg rfl ha (hbin h17 h17 (hr rs))
    | imm v sz => exact performs_memImm rfl ha (hbin h17 h17 h16)
    | _ => exact Emits.fail
  | _ => exact Emits.fail

/-- A register with an immediate: the immediate in the instruction, or in `X17`. -/
theorem performs_arithRegImm (kind : ArithKind) {rd : GpReg} {size sz : OpSize} {v : BitVec 64}
    (hv : v = (v.setWidth 32).signExtend 64) :
    Emits p (arithRegImm inst kind rd size v) fun _ is =>
      Performs inst kind.alu (.reg rd size) (.imm v sz) is := by
  have hrd := hostReg_ne_31 rd
  unfold arithRegImm
  split
  · rename_i hs
    have hsmall : smallImm v = true := (Bool.and_eq_true_iff.mp hs).1
    have hval := setWidth_of_smallImm hv hsmall
    -- one instruction with the immediate, then the mask
    have hone : ∀ (sub : Bool) (alu : Alu) (sh : Bool) (i : BitVec 12) (js : List (Option Insn)),
        alu = Alu.adder sub (fun _ => sub) → immValue sh i = (v.setWidth 32).setWidth 64 →
        Sets (hostReg rd) (fun s => maskVal size (s.x (hostReg rd))) js →
        Performs inst alu (.reg rd size) (.imm v sz)
          ([some (.addSubImm sub true sh i (hostReg rd) (hostReg rd))] ++ js) := by
      rintro sub _ sh i js rfl hi hjs
      have hcomb : Combines ((Alu.adder sub fun _ => sub).withRight v) size (hostReg rd)
          (hostReg rd) (hostReg rd)
          ([some (.addSubImm sub true sh i (hostReg rd) (hostReg rd))] ++ js) := by
        refine Combines.mask hrd (fun env pc s => ?_) hjs
        rw [execOne_addSubImm, hi, hval, Alu.withRight_write]
      exact hcomb.effect
    cases kind with
    | add =>
      exact Emits.bind (emits_adds64Imm fun sh i hi =>
        emits_maskB4 hrd fun js hjs => hone false _ sh i js rfl hi hjs)
    | sub =>
      exact Emits.bind (emits_subs64Imm fun sh i hi =>
        emits_maskB4 hrd fun js hjs => hone true _ sh i js rfl hi hjs)
  · split
    · refine Emits.bind (emits_loadConst64 (by decide) v fun is hl => ?_)
      exact (binary_emitArithRr kind hrd hrd (by decide)).mono fun _ js hc =>
        performs_regImm (.inr rfl) hl hc
    · exact Emits.fail

/-- A register with itself is cleared by a move of zero, which is the exclusive or. -/
theorem performs_xorSelf {rd : GpReg} {size sz : OpSize} :
    Emits p (match size with
      | .b8 => movz64 (hostReg rd) 0 0
      | .b4 | .b2 | .b1 => movz32 (hostReg rd) 0 0 : LiftM Unit)
      fun _ is => Performs inst (.logic .eor) (.reg rd size) (.reg rd sz) is := by
  have hzero : ∀ is64 : Bool, Performs inst (.logic .eor) (.reg rd size) (.reg rd sz)
      [some (.movWide is64 .movz 0 0 (hostReg rd))] := by
    intro is64 env pc s
    refine ⟨s.writeX (hostReg rd) 0, by cases is64 <;> rfl, State.writeX_nzcv _ _ _, ?_⟩
    rw [guest_writeX_hostReg]
    simp [destRegs, Alu.logic, execLogic, maskVal, hostValue, operandValue]
  cases size with
  | b8 => exact emits_movz64 (hzero true)
  | _ => exact emits_movz32 (hzero false)

/-- `ADC` and `SBB` put the source in `X17`, and combine it with the destination and the host's carry. -/
def AddcCode (inst : Inst) (add : Bool) (is : List (Option Insn)) : Prop :=
  ∃ r size src is₁ js, inst.operand0 = some (.reg r size) ∧ inst.operand1 = some src ∧
    (∀ n sz, src ≠ .xmmReg n sz) ∧ PutsIn17 inst src is₁ ∧
    Combines (.adder (!add) (·.c)) size (hostReg r) (hostReg r) 17#5 js ∧ is = is₁ ++ js

/-- The carry of the host goes into the sum of the destination and `X17`. -/
theorem emits_addcTail (add : Bool) (r : GpReg) (size : OpSize) :
    Emits p (do emitAddcWord add (hostReg r); maskB4 size (hostReg r) : LiftM Unit) fun _ js =>
      Combines (.adder (!add) (·.c)) size (hostReg r) (hostReg r) 17#5 js := by
  have hexec : ∀ env pc (s : State), execOne env pc (.addSubCarry (!add) 17 (hostReg r) (hostReg r)) s
      = some ((Alu.adder (!add) (·.c)).write .b8 (hostReg r) (s.x (hostReg r)) (s.x 17#5) s) := by
    intro env pc s
    rw [← readX_hostReg]
    rfl
  have hword : decode (regs3Word (if add then 0xBA000000#32 else 0xFA000000#32) 17 (hostReg r) (hostReg r))
      = some (.addSubCarry (!add) 17 (hostReg r) (hostReg r)) := by
    cases add with
    | true => exact decode_adcs64 _ _ _
    | false => exact decode_sbcs64 _ _ _
  refine Emits.bind (Emits.push ?_)
  rw [hword]
  exact emits_maskB4 (hostReg_ne_31 r) fun js hjs => Combines.mask (hostReg_ne_31 r) hexec hjs

theorem emits_liftAddc (add : Bool) (hb : ∀ src, inst.operand1 = some src → AccessOk p src src.memSize) :
    Emits p (liftAddc inst add) fun _ is => AddcCode inst add is := by
  unfold liftAddc
  refine Emits.bind (Emits.okOr fun dst h0 => Emits.bind (Emits.okOr fun src h1 => ?_))
  simp only [List.nil_append]
  have hok := hb src h1
  by_cases hx : ∃ n sz, src = .xmmReg n sz
  · obtain ⟨n, sz, rfl⟩ := hx
    cases dst with
    | reg r size => exact Emits.bind Emits.fail
    | _ => exact Emits.fail
  have hne : ∀ n sz, src ≠ .xmmReg n sz := fun n sz h => hx ⟨n, sz, h⟩
  -- once the source is in `X17`
  have htail : ∀ (r : GpReg) (size : OpSize) (is : List (Option Insn)), inst.operand0 = some (.reg r size) →
      PutsIn17 inst src is → Emits p (do emitAddcWord add (hostReg r); maskB4 size (hostReg r) : LiftM Unit)
        fun _ js => AddcCode inst add (is ++ js) := by
    intro r size is h0 his
    exact (emits_addcTail add r size).mono fun _ js hc => ⟨r, size, src, is, js, h0, h1, hne, his, hc, rfl⟩
  cases dst with
  | reg r size =>
    cases src with
    | imm v sb =>
      refine Emits.bind (emits_loadConst64 (by decide) v fun is hc => htail r size is h0 ?_)
      exact ⟨fun s => s.x 16#5, fun env pc s => by rw [State.writeX_x_self, hc.run]; rfl⟩
    | reg rs sb =>
      refine Emits.bind (emits_mov64 (htail r size _ h0 ?_))
      refine ⟨fun s => s.x 16#5, fun env pc s => ?_⟩
      rw [runSeq_cons, execOne_mov64, readX_hostReg, State.writeX_x_self]
      rfl
    | mem m =>
      refine Emits.bind (Emits.bind (emits_loadOperand_memSize hok fun is _ hl => Emits.pure ?_))
      rw [List.append_nil]
      exact htail r size is h0 ⟨_, hl⟩
    | ripRel d s =>
      refine Emits.bind (Emits.bind (emits_loadOperand_memSize hok fun is _ hl => Emits.pure ?_))
      rw [List.append_nil]
      exact htail r size is h0 ⟨_, hl⟩
    | xmmReg n sb => exact absurd rfl (hne n sb)
  | _ => exact Emits.fail

section Lifts

variable {oa ob : Operand} (h0 : inst.operand0 = some oa) (h1 : inst.operand1 = some ob)
  (ha : AccessOk p oa oa.memSize) (hb : AccessOk p ob ob.memSize)
include h0 h1 ha hb

theorem performs_liftArith (kind : ArithKind) (himm : ob.ImmOk) :
    Emits p (liftArith inst kind) fun _ is => Performs inst kind.alu oa ob is := by
  unfold liftArith
  rw [h0, h1]
  refine Emits.bind (Emits.pure (Emits.bind (Emits.pure ?_)))
  simp only [List.nil_append]
  have hbin := binary_emitArithRr (p := p) kind
  have hforms := performs_memForms inst inst.op hbin ha hb
  cases oa with
  | reg rd size =>
    cases ob with
    | reg rs sz =>
      exact (hbin (hostReg_ne_31 rd) (hostReg_ne_31 rd) (hostReg_ne_31 rs)).mono
        fun _ is h => performs_regReg h
    | imm v sz => exact performs_arithRegImm kind himm
    | _ => exact hforms
  | mem m => cases ob <;> exact hforms
  | ripRel d s => cases ob <;> exact hforms
  | _ => exact Emits.fail

theorem performs_liftBitop (op : BitOp) :
    Emits p (liftBitop inst op) fun _ is => Performs inst op.alu oa ob is := by
  unfold liftBitop
  rw [h0, h1]
  refine Emits.bind (Emits.pure (Emits.bind (Emits.pure ?_)))
  simp only [List.nil_append]
  have hbin := binary_emitBitopRr (p := p) op
  have hforms := performs_memForms inst inst.op hbin ha hb
  cases oa with
  | reg rd size =>
    cases ob with
    | reg rs sz =>
      exact (hbin (hostReg_ne_31 rd) (hostReg_ne_31 rd) (hostReg_ne_31 rs)).mono
        fun _ is h => performs_regReg h
    | imm v sz =>
      refine Emits.bind (emits_loadConst64 (by decide) v fun is hl => ?_)
      exact (hbin (hostReg_ne_31 rd) (hostReg_ne_31 rd) (by decide)).mono fun _ js hc =>
        performs_regImm (.inl rfl) hl hc
    | _ => exact hforms
  | mem m => cases ob <;> exact hforms
  | ripRel d s => cases ob <;> exact hforms
  | _ => exact Emits.fail

theorem performs_liftXor :
    Emits p (liftXor inst) fun _ is => Performs inst (.logic .eor) oa ob is := by
  unfold liftXor
  rw [h0, h1]
  refine Emits.bind (Emits.pure (Emits.bind (Emits.pure ?_)))
  simp only [List.nil_append]
  have hbin := binary_emitXorRr (p := p)
  have hforms := performs_memForms inst .xor hbin ha hb
  cases oa with
  | reg rd size =>
    cases ob with
    | reg rs sz =>
      by_cases hrs : rd = rs
      · subst hrs
        simp only [if_true]
        exact performs_xorSelf
      · simp only [if_neg hrs]
        exact (hbin (hostReg_ne_31 rd) (hostReg_ne_31 rd) (hostReg_ne_31 rs)).mono
          fun _ is h => performs_regReg h
    | imm v sz =>
      refine Emits.bind (emits_loadConst64 (by decide) v fun is hl => ?_)
      exact (hbin (hostReg_ne_31 rd) (hostReg_ne_31 rd) (by decide)).mono fun _ js hc =>
        performs_regImm (.inl rfl) hl hc
    | _ => exact hforms
  | mem m => cases ob <;> exact hforms
  | ripRel d s => cases ob <;> exact hforms
  | _ => exact Emits.fail

/-- `TEST` writes the flags only. -/
theorem effect_liftTest :
    Emits p (liftTest inst) fun _ is =>
      Effect (fun s => A64.logicFlags (hostValue inst s oa &&& hostValue inst s ob)) guest is := by
  have hands : ∀ {ra rb : Reg}, ra ≠ 31#5 → rb ≠ 31#5 →
      Effect (fun s => A64.logicFlags (s.x ra &&& s.x rb)) guest
        [some (.logicShift .ands rb 0 ra 31)] := by
    intro ra rb hra hrb env pc s
    refine ⟨_, rfl, ?_, rfl⟩
    show A64.logicFlags (s.readX ra &&& s.readX rb <<< 0) = _
    rw [BitVec.shiftLeft_zero, s.readX_of_ne _ hra, s.readX_of_ne _ hrb]
  have hmr : ∀ (m : Operand) (r : GpReg) (sz : OpSize) (first : Bool), m.isMem = true →
      AccessOk p m m.memSize → Emits p (testMemReg inst m r first) fun _ is =>
        Effect (fun s => A64.logicFlags (if first
          then hostValue inst s m &&& hostValue inst s (.reg r sz)
          else hostValue inst s (.reg r sz) &&& hostValue inst s m)) guest is := by
    intro m r sz first hm hok
    refine Emits.bind (emits_loadOperand_memSize hok fun is _ hl => ?_)
    cases first with
    | true =>
      refine emits_ands64 (Effect.append hl (hands (by decide) (hostReg_ne_31 r)) (fun s => ?_)
        (fun s => by simp))
      rw [hostValue_of_isMem hm]
      simp [hostValue, operandValue, guest]
    | false =>
      refine emits_ands64 (Effect.append hl (hands (hostReg_ne_31 r) (by decide)) (fun s => ?_)
        (fun s => by simp))
      rw [hostValue_of_isMem hm]
      simp [hostValue, operandValue, guest]
  have hmi : ∀ (m : Operand) (v : BitVec 64) (sz : OpSize), m.isMem = true →
      AccessOk p m m.memSize → Emits p (testMemImm inst m v) fun _ is =>
        Effect (fun s => A64.logicFlags (hostValue inst s m &&& hostValue inst s (.imm v sz)))
          guest is := by
    intro m v sz hm hok
    refine Emits.bind (emits_loadOperand_memSize hok fun is _ hl =>
      Emits.bind (emits_loadConst64 (by decide) v fun is₁ hc => emits_ands64 ?_))
    refine Effect.append hl (Effect.append hc.run (hands (by decide) (by decide)) (fun s => rfl)
      (fun s => rfl)) (fun s => ?_) (fun s => by simp)
    rw [hostValue_of_isMem hm]
    simp [hostValue, operandValue]
  unfold liftTest
  rw [h0, h1]
  refine Emits.bind (Emits.pure (Emits.bind (Emits.pure ?_)))
  simp only [List.nil_append]
  cases oa with
  | reg ra sa =>
    cases ob with
    | reg rb sb => exact emits_ands64 (hands (hostReg_ne_31 ra) (hostReg_ne_31 rb))
    | imm v sb =>
      refine Emits.bind (emits_loadConst64 (by decide) v fun is hc => emits_ands64 ?_)
      exact Effect.append hc.run (hands (hostReg_ne_31 ra) (by decide))
        (fun s => by simp [hostValue, operandValue, guest]) (fun s => by simp)
    | mem m => exact hmr _ ra sa false rfl hb
    | ripRel d s => exact hmr _ ra sa false rfl hb
    | _ => exact Emits.fail
  | mem m =>
    cases ob with
    | reg rb sb => exact hmr _ rb sb true rfl ha
    | imm v sb => exact hmi _ v sb rfl ha
    | _ => exact Emits.fail
  | ripRel d s =>
    cases ob with
    | reg rb sb => exact hmr _ rb sb true rfl ha
    | imm v sb => exact hmi _ v sb rfl ha
    | _ => exact Emits.fail
  | _ => exact Emits.fail

omit ha in
/-- `ADC` and `SBB` take the host carry as it is. -/
theorem performs_liftAddc (add : Bool) :
    Emits p (liftAddc inst add) fun _ is => Performs inst (.adder (!add) (·.c)) oa ob is := by
  have hsrc : ∀ src, inst.operand1 = some src → AccessOk p src src.memSize := by
    intro src h
    rw [h1] at h
    obtain rfl := Option.some.inj h
    exact hb
  refine (emits_liftAddc add hsrc).mono ?_
  rintro - is ⟨r, size, src, is₁, js, hdst, h, -, ⟨a, hputs⟩, hcomb, rfl⟩
  obtain rfl : oa = .reg r size := Option.some.inj (h0.symm.trans hdst)
  obtain rfl : ob = src := Option.some.inj (h1.symm.trans h)
  refine Effect.append hputs hcomb.effect (fun s => ?_) (fun s => ?_)
  · simp [hostValue, operandValue, guest]
  · simp [hostValue, operandValue, guest, destRegs]

end Lifts

/-! ### One operand -/

/-- The code that `emit` writes changes any register in place. -/
def Unary (p : Profile) (alu : Alu) (emit : Reg → LiftM Unit) : Prop :=
  ∀ ⦃r : Reg⦄ ⦃Q : Unit → List (Option Insn) → Prop⦄, r ≠ 31#5 →
    (∀ i, (∀ env pc s, execOne env pc i s = some (alu.write .b8 r (s.x r) (s.x r) s)) →
      Q () [some i]) → Emits p (emit r) Q

theorem performs_unaryOp {oa : Operand} (h0 : inst.operand0 = some oa)
    (ha : AccessOk p oa oa.memSize) {emit : Reg → LiftM Unit} (hemit : Unary p alu emit) (op : Op) :
    Emits p (unaryOp inst emit op) fun _ is => Performs inst alu oa oa is := by
  have hcomb : ∀ (r : Reg) (size : OpSize), r ≠ 31#5 →
      Emits p (do emit r; maskB4 size r : LiftM Unit) fun _ is => Combines alu size r r r is := by
    intro r size hr
    exact Emits.bind (hemit hr fun i hi => emits_maskB4 hr fun js hjs => Combines.mask hr hi hjs)
  unfold unaryOp
  rw [h0]
  refine Emits.bind (Emits.pure ?_)
  simp only [List.nil_append]
  cases oa with
  | reg rd size =>
    exact (hcomb _ size (hostReg_ne_31 rd)).mono fun _ is h => performs_regReg h
  | mem m =>
    exact performs_memOp rfl ha (fun s a => by simp [hostValue, operandValue])
      (hcomb _ _ (by decide))
  | ripRel d s =>
    exact performs_memOp rfl ha (fun s a => by simp [hostValue, operandValue])
      (hcomb _ _ (by decide))
  | _ => exact Emits.fail

theorem unary_emitNeg : Unary p (Alu.adder true fun _ => true).ofZero emitNeg := by
  intro r Q hr h
  refine Emits.push ?_
  rw [decode_negs64]
  refine h _ fun env pc s => ?_
  rw [execOne_addSubShift, s.readX_of_ne _ hr]
  rfl

theorem unary_emitNot : Unary p (Alu.logic .orn).ofZero emitNot := by
  intro r Q hr h
  refine Emits.push ?_
  rw [decode_orn64]
  refine h _ fun env pc s => ?_
  rw [execOne_logicShift s (by decide), s.readX_of_ne _ hr]
  rfl

theorem unary_emitIncDec (inc : Bool) :
    Unary p ((Alu.adder (!inc) fun _ => !inc).withRight 1) (emitIncDec inc) := by
  intro r Q hr h
  have hone : (1 : BitVec 32).setWidth 64 = 1 := by decide
  unfold emitIncDec
  cases inc with
  | true =>
    refine emits_adds64Imm fun sh i hi => h _ fun env pc s => ?_
    rw [execOne_addSubImm, hi, hone, Alu.withRight_write, Bool.not_true]
  | false =>
    refine emits_subs64Imm fun sh i hi => h _ fun env pc s => ?_
    rw [execOne_addSubImm, hi, hone, Alu.withRight_write, Bool.not_false]

end Quantum.Jit
