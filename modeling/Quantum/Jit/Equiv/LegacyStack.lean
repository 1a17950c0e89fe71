import Quantum.Jit.Equiv.CallBridge
import Quantum.Jit.Equiv.Exits
import Quantum.Jit.Equiv.MemoryAccess

/-!
# The stack of 32-bit code

In a 32-bit image a stack slot, a return address and a code pointer in memory have four bytes, and a
called function keeps `EBX`, `EBP`, `ESI` and `EDI`.  `Obeys` says so for each instruction that uses
the stack or transfers control through a pointer.

The translator keeps the eight-byte slots of 64-bit code for all of them.  What holds in 32-bit mode
is the part that needs no slot: a jump through a register, and a call through a register, which saves
the registers above around the host function (`legacy_discipline_iff`).
-/

namespace Quantum.Jit

open A64 StateTransition
open EmitM

variable {p : Profile}

/-! ### The discipline -/

/-- The instructions that use the stack or a code pointer. -/
def Op.usesStack : Op → Bool
  | .push | .pop | .leave | .call | .ret | .retImm | .jmpIndirect | .callIndirect => true
  | _ => false

/-- A 32-bit guest register. -/
def guest32 (s : State) (g : GpReg) : BitVec 32 :=
  (guest s g).setWidth 32

/-- The four-byte slot at an address. -/
def slot32 (m : ByteMem) (a : BitVec 64) : BitVec 32 :=
  m.read 32 4 a

/-- `ESP` as the exit of a block leaves it in the context of state `s`. -/
def espAfter (s r : State) : BitVec 32 :=
  slot32 r.mem (ctxSlot (s.x 28#5) .rsp)

/-- The value that a `PUSH` stores. -/
def pushed32 (s : State) : Operand → BitVec 32
  | .reg r _ => guest32 s r
  | .imm v _ => v.setWidth 32
  | _ => 0

/-- The code pointer that the operand of a jump or call denotes. -/
def pointer32 (inst : Inst) (s : State) : Operand → BitVec 64
  | .reg r _ => guest s r
  | op => memValue inst s .b4 op

/-- The bytes that `RET imm16` releases. -/
def released32 : Option Operand → BitVec 32
  | some (.imm v _) => v.setWidth 32
  | _ => 0

/-- The registers that a called function keeps. -/
def Keeps32 (s s' : State) : Prop :=
  ∀ g ∈ [GpReg.rbx, .rbp, .rsi, .rdi], guest32 s' g = guest32 s g

/-- What the code `ws` of `inst` does from state `s`, by the rules of 32-bit code. -/
def Obeys (env : Env) (inst : Inst) (ws : List Word) (s : State) : Prop :=
  match inst.op with
  | .push => ∃ s' op, Exec env ws s s' ∧ inst.operand0 = some op ∧
      guest32 s' .rsp = guest32 s .rsp - 4#32 ∧ slot32 s'.mem (guest s' .rsp) = pushed32 s op
  | .pop => ∃ s' r size, Exec env ws s s' ∧ inst.operand0 = some (.reg r size) ∧
      guest32 s' r = slot32 s.mem (guest s .rsp) ∧
      (r ≠ .rsp → guest32 s' .rsp = guest32 s .rsp + 4#32)
  | .leave => ∃ s', Exec env ws s s' ∧ guest32 s' .rsp = guest32 s .rbp + 4#32 ∧
      guest32 s' .rbp = slot32 s.mem (guest s .rbp)
  | .call => ∃ r, Returns env ws s r ∧ espAfter s r = guest32 s .rsp - 4#32 ∧
      slot32 r.mem (guest s .rsp - 4#64) = inst.nextRip.setWidth 32
  | .ret => ∃ r, Returns env ws s r ∧ espAfter s r = guest32 s .rsp + 4#32 ∧
      r.x 0#5 = (slot32 s.mem (guest s .rsp)).setWidth 64
  | .retImm => ∃ r, Returns env ws s r ∧
      espAfter s r = guest32 s .rsp + 4#32 + released32 inst.operand0 ∧
      r.x 0#5 = (slot32 s.mem (guest s .rsp)).setWidth 64
  | .jmpIndirect => ∃ r op, Returns env ws s r ∧ inst.operand0 = some op ∧
      r.x 0#5 = pointer32 inst s op
  | .callIndirect => ∃ k sc op, Reaches (step env ws) (.at 0 s) (.at k sc) ∧
      (ws[k]?).bind decode = some (.blr 16) ∧ inst.operand0 = some op ∧
      sc.readX 16#5 = pointer32 inst s op ∧
      ∀ sr, env.call sc.ext (sc.readX 16) (sc.writeX 30 (env.addrOf (k + 1))) = some sr →
        ∃ s', Exec env ws s s' ∧ Keeps32 s s'
  | _ => True

/-- At some point of a 32-bit block, `ws` are the words that the translator appends for `inst`. -/
def Translates (p : Profile) (inst : Inst) (ws : List Word) : Prop :=
  (inst.op.isTerminator = true ∧
    ∃ e patches, emitTerminator inst p e = .ok (patches, e.append ws)) ∨
  (inst.op.isTerminator = false ∧ ∃ e, lift true inst p e = .ok ((), e.append ws))

/-- Whatever the host functions do within their calling standard, the code of `inst` obeys the rules
from every state. -/
def Disciplined (p : Profile) (inst : Inst) : Prop :=
  ∀ ws, Translates p inst ws → ∀ env, Aapcs64 env 80 → ∀ s, Obeys env inst ws s

/-- A jump or a call through a register. -/
def Inst.isRegIndirect (inst : Inst) : Bool :=
  match inst.op, inst.operand0 with
  | .jmpIndirect, some (.reg ..) => true
  | .callIndirect, some (.reg ..) => true
  | _, _ => false

/-! ### Code that moves the stack pointer by eight -/

/-- The code of `inst`, if it has any, has the property `Q`. -/
theorem Translates.of_lift {inst : Inst} {ws : List Word} {Q : List (Option Insn) → Prop}
    (hop : inst.op.isTerminator = false) (hQ : Emits p (lift true inst) fun _ is => Q is)
    (h : Translates p inst ws) : Q (ws.map decode) := by
  rcases h with ⟨hterm, -⟩ | ⟨-, e, he⟩
  · rw [hop] at hterm
    cases hterm
  · obtain ⟨ws', heq, hq⟩ := hQ _ _ _ he
    have hcode := congrArg Emitter.code heq
    rw [Emitter.append, Emitter.append, List.append_cancel_left_eq] at hcode
    rwa [hcode]

theorem Translates.of_terminator {inst : Inst} {ws : List Word} {Q : List (Option Insn) → Prop}
    (hop : inst.op.isTerminator = true) (hQ : Emits p (emitTerminator inst) fun _ is => Q is)
    (h : Translates p inst ws) : Q (ws.map decode) := by
  rcases h with ⟨-, e, patches, he⟩ | ⟨hterm, -⟩
  · obtain ⟨ws', heq, hq⟩ := hQ _ _ _ he
    have hcode := congrArg Emitter.code heq
    rw [Emitter.append, Emitter.append, List.append_cancel_left_eq] at hcode
    rwa [hcode]
  · rw [hop] at hterm
    cases hterm

/-- The code of a `PUSH` moves `X19` down by eight. -/
theorem emits_liftPush (inst : Inst) :
    Emits p (liftPush inst) fun _ is => Leaves 19#5 (fun s => s.x 19#5 - 8#64) is := by
  unfold liftPush operand
  refine Emits.bind (Emits.okOr fun op _ => Emits.bind (emits_sub64Imm fun sh i hv => ?_))
  cases op with
  | reg r size =>
    refine emits_str64 (fits_zero .b8) fun env pc s => ?_
    rw [List.nil_append, List.singleton_append, runSeq_sub64Imm hv, runSeq_storeInsn (fits_zero .b8)]
    exact ⟨_, rfl, by simp⟩
  | imm v size =>
    refine Emits.bind (emits_loadConst64 (by decide) _ fun is hl =>
      emits_str64 (fits_zero .b8) fun env pc s => ?_)
    rw [List.nil_append, List.singleton_append, runSeq_sub64Imm hv, runSeq_append, hl.run,
      Option.bind_some, runSeq_storeInsn (fits_zero .b8)]
    exact ⟨_, rfl, by simp⟩
  | _ => exact Emits.fail

/-- The code of a `POP` moves `X19` up by eight, after the load. -/
theorem emits_liftPop (inst : Inst) :
    Emits p (liftPop inst) fun _ is => ∃ r size, inst.operand0 = some (.reg r size) ∧
      Leaves 19#5 (fun s =>
        (if r = .rsp then s.mem.read 64 8 (s.x 19#5) else s.x 19#5) + 8#64) is := by
  unfold liftPop operand
  refine Emits.bind (Emits.okOr fun op h0 => ?_)
  cases op with
  | reg r size =>
    refine Emits.bind (emits_ldr64 (fits_zero .b8) (emits_add64Imm fun sh i hv =>
      ⟨r, size, h0, fun env pc s => ?_⟩))
    have hrsp : (19#5 : Reg) = hostReg r ↔ r = .rsp := by
      rw [show (19#5 : Reg) = hostReg .rsp from rfl, hostReg_inj, eq_comm]
    rw [List.nil_append, List.singleton_append, runSeq_loadInsn (fits_zero .b8),
      runSeq_add64Imm hv]
    exact ⟨_, rfl, by simp [hrsp, OpSize.bytes]⟩
  | _ => exact Emits.fail

/-- The code of `LEAVE` sets `X19` to `RBP + 8`. -/
theorem emits_liftLeave :
    Emits p liftLeave fun _ is => Leaves 19#5 (fun s => guest s .rbp + 8#64) is := by
  unfold liftLeave
  refine Emits.bind (emits_mov64 (Emits.bind (emits_ldr64 (fits_zero .b8)
    (emits_add64Imm fun sh i hv env pc s => ?_))))
  rw [List.singleton_append, runSeq_mov64, List.singleton_append, runSeq_loadInsn (fits_zero .b8),
    runSeq_add64Imm hv]
  exact ⟨_, rfl, by simp [guest, hostReg, State.readX]⟩

/-- The code ends in an exit that spills `f s` as the guest's stack pointer. -/
def SpillsRsp (f : State → BitVec 64) (is : List (Option Insn)) : Prop :=
  ∃ js, is = js ++ [some (.ret 30)] ∧ ∀ env pc s, ∃ s₁ next,
    runSeq env pc js s = some (exited s₁ next) ∧ guest s₁ .rsp = f s ∧ s₁.x 28#5 = s.x 28#5

theorem emits_emitRet (extra : BitVec 32) :
    Emits p (emitRet extra) fun _ is =>
      SpillsRsp (fun s => guest s .rsp + (8 + extra).setWidth 64) is := by
  unfold emitRet
  refine Emits.bind (emits_ldr64 (fits_zero .b8) (Emits.bind (emits_add64Imm fun sh i hv =>
    emits_emitEpilogueX16 ⟨_, by rw [← List.append_assoc, ← List.append_assoc], ?_⟩)))
  intro env pc s
  rw [List.append_assoc, List.singleton_append, runSeq_loadInsn (fits_zero .b8),
    List.singleton_append, runSeq_add64Imm hv, runSeq_exit_x16]
  exact ⟨_, _, rfl, by simp [guest, hostReg], by simp⟩

theorem emits_terminator_ret {inst : Inst} (hop : inst.op = .ret) :
    Emits p (emitTerminator inst) fun _ is => SpillsRsp (fun s => guest s .rsp + 8#64) is := by
  rw [emitTerminator, hop]
  refine Emits.bind ((emits_emitRet 0).mono fun _ is h => Emits.pure ?_)
  rw [List.append_nil]
  exact h

theorem emits_terminator_retImm {inst : Inst} (hop : inst.op = .retImm) :
    Emits p (emitTerminator inst) fun _ is =>
      SpillsRsp (fun s => guest s .rsp + (8 + released32 inst.operand0).setWidth 64) is := by
  rw [emitTerminator, hop]
  refine Emits.bind ?_
  unfold branchRel
  split
  · rename_i v size h0
    refine Emits.pure (Emits.bind ((emits_emitRet _).mono fun _ is h => Emits.pure ?_))
    rw [List.append_nil, List.nil_append, h0]
    exact h
  · exact Emits.fail

theorem emits_terminator_call {inst : Inst} (hop : inst.op = .call) :
    Emits p (emitTerminator inst) fun _ is => SpillsRsp (fun s => guest s .rsp - 8#64) is := by
  rw [emitTerminator, hop]
  refine Emits.bind ?_
  unfold branchRel
  split
  · refine Emits.pure (Emits.bind (emits_sub64Imm fun sh i hv => Emits.bind (emits_loadConst64
      (by decide) _ fun is hl => Emits.bind (emits_str64 (fits_zero .b8)
        (Emits.bind (emits_emitEpilogueConstRip fun set hset => Emits.pure ?_))))))
    refine ⟨_, by rw [List.append_nil, List.nil_append, ← List.append_assoc, ← List.append_assoc,
      ← List.append_assoc], ?_⟩
    intro env pc s
    rw [List.append_assoc, List.append_assoc, List.singleton_append, runSeq_sub64Imm hv,
      runSeq_append, hl.run, Option.bind_some, List.singleton_append,
      runSeq_storeInsn (fits_zero .b8), runSeq_exit_const hset]
    exact ⟨_, _, rfl, by simp [guest, hostReg], by simp⟩
  · exact Emits.fail

/-! ### Indirect jumps and calls -/

theorem Emits.mapErr {ε ε' α : Type} {f : ε → ε'} {m : EmitM ε α}
    {Q : α → List (Option Insn) → Prop} (h : Emits p m Q) : Emits p (EmitM.mapErr f m) Q := by
  intro e a e' hm
  unfold EmitM.mapErr at hm
  cases hr : m p e with
  | ok r =>
    rw [hr] at hm
    cases hm
    exact h e a e' hr
  | error x =>
    rw [hr] at hm
    cases x <;> cases hm

/-- The word of the load through which an indirect transfer takes its pointer. -/
def pointerLoad (size : BitVec 2) (n : Nat) (op : Operand) : Word :=
  ldstUoffWord size 0 1 (op.leftover / BitVec.ofNat 32 n) 16 16

/-- The code of a jump through memory. -/
theorem emits_emitIndirectTarget_mem {inst : Inst} {op : Operand} (h0 : inst.operand0 = some op)
    (hreg : ∀ r size, op ≠ .reg r size) :
    Emits p (emitIndirectTarget inst) fun _ is => ∃ is₀, AddrCode inst op is₀ ∧
      is = is₀ ++ [decode (pointerLoad 3 8 op)] := by
  have hload : ∀ op : Operand, Emits p (do
      let leftover ← mapErr .lift (addrIntoXtmp op inst 16)
      ldr64 16 16 leftover : EmitM BlockError Unit) fun _ is => ∃ is₀, AddrCode inst op is₀ ∧
      is = is₀ ++ [decode (pointerLoad 3 8 op)] := by
    intro op
    exact Emits.bind (Emits.mapErr (emits_addrIntoXtmp fun is ha =>
      emits_ldstScaled (by decide) fun _ => ⟨is, ha, rfl⟩))
  unfold emitIndirectTarget
  rw [h0]
  refine Emits.bind (Emits.pure ?_)
  cases op with
  | reg r size => exact absurd rfl (hreg r size)
  | mem m => exact hload _
  | ripRel d size => exact hload _
  | _ => exact Emits.fail

theorem emits_terminator_jmp_mem {inst : Inst} {op : Operand} (hop : inst.op = .jmpIndirect)
    (h0 : inst.operand0 = some op) (hreg : ∀ r size, op ≠ .reg r size) :
    Emits p (emitTerminator inst) fun _ is => ∃ is₀, AddrCode inst op is₀ ∧
      is = is₀ ++ [decode (pointerLoad 3 8 op)] ++ exitInsns moveX16 ++ [some (.ret 30)] := by
  rw [emitTerminator, hop]
  refine Emits.bind ((emits_emitIndirectTarget_mem h0 hreg).mono fun _ is h =>
    Emits.bind (emits_emitEpilogueX16 (Emits.pure ?_)))
  obtain ⟨is₀, ha, rfl⟩ := h
  exact ⟨is₀, ha, by simp⟩

/-- The code of a jump through a register. -/
theorem emits_terminator_jmp_reg {inst : Inst} {r : GpReg} {size : OpSize}
    (hop : inst.op = .jmpIndirect) (h0 : inst.operand0 = some (.reg r size)) :
    Emits p (emitTerminator inst) fun _ is =>
      is = some (.logicShift .orr (hostReg r) 0 31 16) :: exitInsns moveX16 ++
        [some (.ret 30)] := by
  rw [emitTerminator, hop]
  unfold emitIndirectTarget
  rw [h0]
  refine Emits.bind (Emits.bind (Emits.pure (emits_mov64 ?_)))
  exact Emits.bind (emits_emitEpilogueX16 (Emits.pure (by simp)))

/-- The instructions of a 32-bit call after the load of the pointer. -/
def call32Insns : List (Option Insn) :=
  [some (loadInsn .b4 0 19 4), some (loadInsn .b4 1 19 8), some (loadInsn .b4 2 19 12),
   some (loadInsn .b4 3 19 16), some (pushInsn 29 30), some (.blr 16), some (popInsn 29 30)]

theorem emits_emitCall32 {Q : Unit → List (Option Insn) → Prop} (h : Q () call32Insns) :
    Emits p emitCall32 Q := by
  unfold emitCall32
  refine Emits.bind (emits_ldstScaled_of_fits (by decide) (.inr (by decide)) fun _ => ?_)
  refine Emits.bind (emits_ldstScaled_of_fits (by decide) (.inr (by decide)) fun _ => ?_)
  refine Emits.bind (emits_ldstScaled_of_fits (by decide) (.inr (by decide)) fun _ => ?_)
  refine Emits.bind (emits_ldstScaled_of_fits (by decide) (.inr (by decide)) fun _ => ?_)
  exact Emits.bind (emits_stp64Pre (Emits.bind (emits_blr (emits_ldp64Post h))))

theorem emits_liftCallIndirect_mem {inst : Inst} {op : Operand} (h0 : inst.operand0 = some op)
    (hreg : ∀ r size, op ≠ .reg r size) :
    Emits p (liftCallIndirect true inst) fun _ is => ∃ is₀, AddrCode inst op is₀ ∧
      is = is₀ ++ ([decode (pointerLoad 2 4 op)] ++ call32Insns) := by
  have hload : ∀ op : Operand, Emits p (do
      let leftover ← addrIntoXtmp op inst 16
      ldr32 16 16 leftover
      emitCall32 : LiftM Unit) fun _ is => ∃ is₀, AddrCode inst op is₀ ∧
      is = is₀ ++ ([decode (pointerLoad 2 4 op)] ++ call32Insns) := by
    intro op
    exact Emits.bind (emits_addrIntoXtmp fun is ha => Emits.bind
      (emits_ldstScaled (by decide) fun _ => emits_emitCall32 ⟨is, ha, rfl⟩))
  unfold liftCallIndirect operand
  rw [h0]
  refine Emits.bind (Emits.pure ?_)
  cases op with
  | reg r size => exact absurd rfl (hreg r size)
  | _ => exact hload _

/-- A call through a register is the 64-bit call. -/
theorem emits_liftCallIndirect_reg {inst : Inst} {r : GpReg} {size : OpSize}
    (h0 : inst.operand0 = some (.reg r size)) :
    Emits p (liftCallIndirect true inst) fun _ is => ∃ is₀,
      SetsVia17 16#5 (fun s => guest s r) is₀ ∧
      is = is₀ ++ (callSetup ++ some (.blr 16) :: callRestore) := by
  have hmode : liftCallIndirect true inst = liftCallIndirect false inst := by
    simp only [liftCallIndirect, h0]
    rfl
  rw [hmode]
  exact emits_liftCallIndirect h0 (.inr (fits_zero .b8))

/-! ### Which instructions obey -/

/-- No host function returns. -/
theorem aapcs64_default (frame : Nat) : Aapcs64 default frame := by
  intro n a s s' h
  cases h

/-- The state with all registers zero and the byte `b` everywhere in memory. -/
def filled (b : BitVec 8) : State :=
  { (default : State) with mem := fun _ => b }

/-- A read of such a memory does not depend on the address. -/
theorem read_filled (b : BitVec 8) (w n : Nat) (a : BitVec 64) :
    (filled b).mem.read w n a = (filled b).mem.read w n 0 := by
  have hconst : ∀ a' : BitVec 64, (filled b).mem.read w n a = (filled b).mem.read w n a' := by
    induction n generalizing a with
    | zero => exact fun _ => rfl
    | succ n ih =>
      intro a'
      rw [ByteMem.read, ByteMem.read, ih (a + 1#64) (a' + 1#64)]
      rfl
  exact hconst 0

/-- Code that leaves `f s` in `X19`. -/
theorem esp_of_leaves {ws : List Word} {f : State → BitVec 64} {env : Env} {s s' : State}
    (h : Leaves 19#5 f (ws.map decode)) (hs' : Exec env ws s s') :
    guest32 s' .rsp = (f s).setWidth 32 := by
  obtain ⟨s₁, hs₁, hf⟩ := h env 0 s
  have heq := (exec_of_runSeq hs₁).unique hs'
  rw [← heq, ← hf]
  rfl

/-- The low half of an eight-byte slot. -/
theorem slot32_eq (m : ByteMem) (a : BitVec 64) : slot32 m a = (m.read 64 8 a).setWidth 32 := by
  refine BitVec.eq_of_getLsbD_eq fun i hi => ?_
  rw [slot32, BitVec.getLsbD_setWidth, ByteMem.getLsbD_read, ByteMem.getLsbD_read]
  simp [hi, show i < 64 by omega]

theorem esp_of_spillsRsp {ws : List Word} {f : State → BitVec 64} {env : Env} {s r : State}
    (h : SpillsRsp f (ws.map decode)) (hr : Returns env ws s r) :
    espAfter s r = (f s).setWidth 32 := by
  obtain ⟨js, hjs, hrun⟩ := h
  obtain ⟨s₁, next, hs₁, hrsp, h28⟩ := hrun env 0 s
  obtain rfl := (returns_of_runSeq hjs hs₁).unique hr
  rw [espAfter, slot32_eq, ← h28, exited_slot, hrsp]

theorem not_disciplined_push {inst : Inst} {ws : List Word} (hop : inst.op = .push)
    (hws : Translates p inst ws) : ¬ Obeys default inst ws default := by
  have hlift : lift true inst = liftPush inst := by rw [lift, hop]
  have hl := hws.of_lift (by rw [hop]; rfl) (by rw [hlift]; exact emits_liftPush inst)
  rw [Obeys, hop]
  rintro ⟨s', op, hexec, -, hesp, -⟩
  rw [esp_of_leaves hl hexec] at hesp
  revert hesp
  decide

theorem not_disciplined_pop {inst : Inst} {ws : List Word} (hop : inst.op = .pop)
    (hws : Translates p inst ws) : ¬ Obeys default inst ws default := by
  have hlift : lift true inst = liftPop inst := by rw [lift, hop]
  obtain ⟨r, size, h0, hl⟩ :=
    hws.of_lift (by rw [hop]; rfl) (by rw [hlift]; exact emits_liftPop inst)
  rw [Obeys, hop]
  rintro ⟨s', r', size', hexec, h0', hval, hesp⟩
  rw [h0, Option.some.injEq, Operand.reg.injEq] at h0'
  obtain ⟨rfl, -⟩ := h0'
  by_cases hr : r = .rsp
  · -- `POP ESP`: the slot holds zero, and the code leaves eight
    subst hr
    rw [esp_of_leaves hl hexec] at hval
    revert hval
    decide
  · have hesp := hesp hr
    rw [esp_of_leaves hl hexec, if_neg hr] at hesp
    revert hesp
    decide

theorem not_disciplined_leave {inst : Inst} {ws : List Word} (hop : inst.op = .leave)
    (hws : Translates p inst ws) : ¬ Obeys default inst ws default := by
  have hlift : lift true inst = liftLeave := by rw [lift, hop]
  have hl := hws.of_lift (by rw [hop]; rfl) (by rw [hlift]; exact emits_liftLeave)
  rw [Obeys, hop]
  rintro ⟨s', hexec, hesp, -⟩
  rw [esp_of_leaves hl hexec] at hesp
  revert hesp
  decide

theorem not_disciplined_ret {inst : Inst} {ws : List Word} (hop : inst.op = .ret)
    (hws : Translates p inst ws) : ¬ Obeys default inst ws default := by
  have hsp := hws.of_terminator (by rw [hop]; rfl) (emits_terminator_ret hop)
  rw [Obeys, hop]
  rintro ⟨r, hret, hesp, -⟩
  rw [esp_of_spillsRsp hsp hret] at hesp
  revert hesp
  decide

theorem not_disciplined_retImm {inst : Inst} {ws : List Word} (hop : inst.op = .retImm)
    (hws : Translates p inst ws) : ¬ Obeys default inst ws default := by
  have hsp := hws.of_terminator (by rw [hop]; rfl) (emits_terminator_retImm hop)
  rw [Obeys, hop]
  rintro ⟨r, hret, hesp, -⟩
  rw [esp_of_spillsRsp hsp hret] at hesp
  have hnat := congrArg BitVec.toNat hesp
  have hlt := (released32 inst.operand0).isLt
  rw [show guest default .rsp = 0#64 from rfl, show guest32 default .rsp = 0#32 from rfl] at hnat
  simp only [BitVec.toNat_setWidth, BitVec.toNat_add, BitVec.toNat_ofNat,
    BitVec.ofNat_eq_ofNat] at hnat
  omega

theorem not_disciplined_call {inst : Inst} {ws : List Word} (hop : inst.op = .call)
    (hws : Translates p inst ws) : ¬ Obeys default inst ws default := by
  have hsp := hws.of_terminator (by rw [hop]; rfl) (emits_terminator_call hop)
  rw [Obeys, hop]
  rintro ⟨r, hret, hesp, -⟩
  rw [esp_of_spillsRsp hsp hret] at hesp
  revert hesp
  decide

/-- What the load of an eight-byte pointer leaves in `X16`, also when its offset does not fit. -/
theorem pointerLoad_x16 {env : Env} {pc : Nat} {op : Operand} {s s' : State}
    (henv : ∀ w v, env.simdScalar w v = none)
    (h : runSeq env pc [decode (pointerLoad 3 8 op)] s = some s') :
    (∃ a, s'.x 16#5 = s.mem.read 64 8 a) ∨ s'.x 16#5 = s.x 16#5 := by
  generalize hq : op.leftover / BitVec.ofNat 32 8 = q at *
  rw [pointerLoad, hq] at h
  rcases decode_ldstUoffWord_cases 3 1 0 q 16 16 with hd | hd | hd
  · rw [hd, runSeq_cons, Option.bind_eq_some_iff] at h
    obtain ⟨s₁, hs₁, h⟩ := h
    rw [runSeq_nil, Option.some.injEq] at h
    subst h
    have hsize : ∀ b : BitVec 2, (3#2 ||| b) = 3#2 := by decide
    have hopc : ∀ b : BitVec 2, (1#2 ||| b) = 1#2 ∨ (1#2 ||| b) = 3#2 := by decide
    change execLdst _ _ _ _ _ _ s = some s₁ at hs₁
    simp only [BitVec.ofNat_eq_ofNat, hsize, BitVec.zero_or] at hs₁
    rcases hopc (q.extractLsb' 12 2) with ho | ho
    · rw [ho] at hs₁
      rcases bv1_cases (q.extractLsb' 16 1) with hv | hv
      · rw [hv] at hs₁
        cases hs₁
        exact .inl ⟨ldstAddr s 8 (q.extractLsb' 0 12) 16#5, by simp [loadValue]⟩
      · rw [hv] at hs₁
        cases hs₁
        exact .inr rfl
    · rw [ho] at hs₁
      rcases bv1_cases (q.extractLsb' 16 1) with hv | hv
      · rw [hv] at hs₁
        cases hs₁
      · rw [hv] at hs₁
        cases hs₁
  · rw [hd] at h
    cases h
  · rw [hd, runSeq_cons, Option.bind_eq_some_iff] at h
    obtain ⟨s₁, hs₁, -⟩ := h
    change (env.simdScalar _ _).map _ = _ at hs₁
    rw [henv] at hs₁
    cases hs₁

/-- The next address of a jump through memory: what an eight-byte load finds, or, when the load is
misencoded, the address that the registers give. -/
theorem jmp_mem_x0 {inst : Inst} {op : Operand} {ws : List Word} (hop : inst.op = .jmpIndirect)
    (h0 : inst.operand0 = some op) (hreg : ∀ r size, op ≠ .reg r size)
    (hws : Translates p inst ws) (s r : State) (hr : Returns default ws s r) :
    (∃ a, r.x 0#5 = s.mem.read 64 8 a) ∨
      r.x 0#5 = effectiveAddress inst s op - op.leftover.setWidth 64 := by
  obtain ⟨is₀, ha, his⟩ :=
    hws.of_terminator (by rw [hop]; rfl) (emits_terminator_jmp_mem hop h0 hreg)
  obtain ⟨t, ht⟩ := ha default 0 s
  have hlin : ∀ i, some i ∈ is₀ ++ [decode (pointerLoad 3 8 op)] ++ exitInsns moveX16 →
      i.isLinear = true := by
    intro i hi
    rcases List.mem_append.mp hi with hi | hi
    · rcases List.mem_append.mp hi with hi | hi
      · exact isLinear_of_runSeq ht i hi
      · exact isLinear_ldstUoffWord (List.mem_singleton.mp hi)
    · have hexit : runSeq default 0 (exitInsns moveX16) s = some (exited s (s.x 16#5)) :=
        runSeq_exit_x16 0 s
      exact isLinear_of_runSeq hexit i hi
  have hrun := runSeq_of_returns his hlin hr
  rw [runSeq_append, runSeq_append, ht, Option.bind_some] at hrun
  obtain ⟨s₂, hs₂, hrest⟩ := Option.bind_eq_some_iff.mp hrun
  rw [runSeq_exit_x16, Option.some.injEq] at hrest
  rw [← hrest, exited_x0]
  rcases pointerLoad_x16 (fun _ _ => rfl) hs₂ with ⟨a, hx⟩ | hx
  · exact .inl ⟨a, by rw [hx]; simp⟩
  · exact .inr (by rw [hx]; simp)

/-- A jump through memory does not take a four-byte pointer: neither of two states with the same
registers has the pointer that the other one needs. -/
theorem not_disciplined_jmp {inst : Inst} {op : Operand} {ws : List Word}
    (hop : inst.op = .jmpIndirect) (h0 : inst.operand0 = some op)
    (hreg : ∀ r size, op ≠ .reg r size) (hws : Translates p inst ws) :
    ¬ ∀ s, Obeys default inst ws s := by
  intro hall
  have haddr : ∀ b, Obeys default inst ws (filled b) →
      (filled b).mem.read 64 8 0 ≠ (filled b).mem.read 64 4 0 →
      effectiveAddress inst default op - op.leftover.setWidth 64 = (filled b).mem.read 64 4 0 := by
    intro b hob hne
    rw [Obeys, hop] at hob
    obtain ⟨r, op', hr, h0', hx⟩ := hob
    obtain rfl : op = op' := Option.some.inj (h0.symm.trans h0')
    have hptr : pointer32 inst (filled b) op = (filled b).mem.read 64 4 0 := by
      cases op with
      | reg r size => exact absurd rfl (hreg r size)
      | _ => exact read_filled b 64 4 _
    have heff : effectiveAddress inst (filled b) op = effectiveAddress inst default op := by
      cases op <;> rfl
    rw [hptr] at hx
    rcases jmp_mem_x0 hop h0 hreg hws _ r hr with ⟨a, ha⟩ | ha
    · rw [read_filled] at ha
      exact absurd (ha.symm.trans hx) hne
    · rw [← heff, ← ha, hx]
  have h₁ := haddr 1#8 (hall _) (by decide)
  have h₂ := haddr 2#8 (hall _) (by decide)
  rw [h₁] at h₂
  revert h₂
  decide

/-- A host that changes `X3`, as AAPCS64 lets it. -/
def envClobbersX3 : Env :=
  { (default : Env) with call := fun _ _ s => some (s.writeX 3#5 1#64) }

theorem aapcs64_envClobbersX3 (frame : Nat) : Aapcs64 envClobbersX3 frame := by
  intro n a s s' h
  obtain rfl : s.writeX 3#5 1#64 = s' := Option.some.inj h
  refine ⟨fun r h19 _ => ?_, by simp, fun b _ => by simp⟩
  have hne : r ≠ 3#5 := by
    rintro rfl
    exact absurd h19 (by decide)
  simp [hne]

/-- A call through memory loses `EBX`. -/
theorem not_disciplined_callIndirect {inst : Inst} {op : Operand} {ws : List Word}
    (hop : inst.op = .callIndirect) (h0 : inst.operand0 = some op)
    (hreg : ∀ r size, op ≠ .reg r size) (hws : Translates p inst ws) :
    ¬ Obeys envClobbersX3 inst ws default := by
  have hlift : lift true inst = liftCallIndirect true inst := by rw [lift, hop]
  obtain ⟨is₀, ha, his⟩ :=
    hws.of_lift (by rw [hop]; rfl) (by rw [hlift]; exact emits_liftCallIndirect_mem h0 hreg)
  rw [Obeys, hop]
  rintro ⟨k, sc, op', -, -, -, -, hret⟩
  obtain ⟨s', hexec, hkeep⟩ := hret _ rfl
  obtain ⟨t, ht⟩ := ha envClobbersX3 0 default
  have hlin : ∀ i, some i ∈ ws.map decode → i.isLinear = true := by
    intro i hi
    rw [his] at hi
    rcases List.mem_append.mp hi with hi | hi
    · exact isLinear_of_runSeq ht i hi
    rcases List.mem_append.mp hi with hi | hi
    · exact isLinear_ldstUoffWord (List.mem_singleton.mp hi)
    · simp only [call32Insns, List.mem_cons, Option.some.injEq, List.not_mem_nil, or_false] at hi
      rcases hi with rfl | rfl | rfl | rfl | rfl | rfl | rfl <;> rfl
  have hrun := runSeq_of_exec hlin hexec
  -- only the call and the pop after it matter
  rw [his, show is₀ ++ ([decode (pointerLoad 2 4 op)] ++ call32Insns)
      = (is₀ ++ ([decode (pointerLoad 2 4 op)] ++ call32Insns.take 5)) ++
        [some (.blr 16), some (popInsn 29 30)] by simp [call32Insns], runSeq_append] at hrun
  obtain ⟨sb, -, hlast⟩ := Option.bind_eq_some_iff.mp hrun
  rw [runSeq_cons] at hlast
  obtain ⟨sr, hsr, hlast⟩ := Option.bind_eq_some_iff.mp hlast
  rw [runSeq_cons, execOne_popInsn, Option.bind_some, runSeq_nil, Option.some.injEq] at hlast
  have hx3 : sr.x 3#5 = 1#64 := by
    change (execCall envClobbersX3 _ 16 sb) = some sr at hsr
    obtain ⟨sh, hsh, rfl⟩ := Option.map_eq_some_iff.mp hsr
    obtain rfl := Option.some.inj hsh
    simp
  have hrbx := hkeep .rbx (by simp)
  rw [← hlast] at hrbx
  simp only [guest32, guest, hostReg, State.popPair_x, BitVec.ofNat_eq_ofNat, BitVec.reduceEq,
    if_false, hx3] at hrbx
  revert hrbx
  decide

theorem disciplined_jmp_reg {inst : Inst} {r : GpReg} {size : OpSize} (hop : inst.op = .jmpIndirect)
    (h0 : inst.operand0 = some (.reg r size)) : Disciplined p inst := by
  intro ws hws env _ s
  have his := hws.of_terminator (by rw [hop]; rfl) (emits_terminator_jmp_reg hop h0)
  rw [Obeys, hop]
  have hrun : runSeq env 0 (some (.logicShift .orr (hostReg r) 0 31 16) :: exitInsns moveX16) s
      = some (exited (s.writeX 16 (s.readX (hostReg r))) (guest s r)) := by
    rw [runSeq_mov64, runSeq_exit_x16]
    simp [guest]
  exact ⟨_, _, returns_of_runSeq his hrun, h0, exited_x0 _ _⟩

theorem disciplined_callIndirect_reg {inst : Inst} {r : GpReg} {size : OpSize}
    (hop : inst.op = .callIndirect) (h0 : inst.operand0 = some (.reg r size)) :
    Disciplined p inst := by
  intro ws hws env henv s
  have hlift : lift true inst = liftCallIndirect true inst := by rw [lift, hop]
  obtain ⟨is₀, hptr, his⟩ :=
    hws.of_lift (by rw [hop]; rfl) (by rw [hlift]; exact emits_liftCallIndirect_reg h0)
  obtain ⟨t, ht⟩ := hptr env 0 s
  obtain ⟨k, hreach, hblr, hret⟩ := call_run his ht (le_refl 80) henv
  rw [Obeys, hop]
  refine ⟨k, _, _, hreach, hblr, h0, ?_, fun sr hsr => ?_⟩
  · rw [State.readX_of_ne _ _ (by decide), callState_x _ (by decide) (by decide)]
    simp [pointer32]
  · obtain ⟨s', hexec, hk⟩ := hret sr hsr
    have hk' : CallKeeps s sr s' := by
      refine hk.congr fun q h16 h17 => ?_
      simp [h16, h17]
    refine ⟨s', hexec, fun g hg => ?_⟩
    simp only [List.mem_cons, List.not_mem_nil, or_false] at hg
    rcases hg with rfl | rfl | rfl | rfl
    · rw [guest32, hk'.rbx, guest32]
    · rw [guest32, hk'.rbp, guest32]
    · rw [guest32, hk'.rsi, guest32]
    · rw [guest32, hk'.rdi, guest32]

/-! ### Instructions and blocks -/

theorem Op.usesStack_cases {op : Op} (h : op.usesStack = true) :
    op = .push ∨ op = .pop ∨ op = .leave ∨ op = .call ∨ op = .ret ∨ op = .retImm ∨
      op = .jmpIndirect ∨ op = .callIndirect := by
  revert h
  cases op <;> simp [Op.usesStack]

/-- An indirect transfer that is translated has an operand. -/
theorem Translates.operand {inst : Inst} {ws : List Word}
    (hop : inst.op = .jmpIndirect ∨ inst.op = .callIndirect) (h : Translates p inst ws) :
    ∃ op, inst.operand0 = some op := by
  by_contra hnone
  have h0 : inst.operand0 = none := by
    cases hc : inst.operand0 with
    | none => rfl
    | some op => exact absurd ⟨op, hc⟩ hnone
  rcases hop with hop | hop
  · refine h.of_terminator (Q := fun _ => False) (by rw [hop]; rfl) ?_
    rw [emitTerminator, hop]
    unfold emitIndirectTarget
    rw [h0]
    exact Emits.bind (Emits.bind Emits.fail)
  · refine h.of_lift (Q := fun _ => False) (by rw [hop]; rfl) ?_
    rw [lift, hop]
    simp only [liftCallIndirect, h0]
    exact Emits.bind Emits.fail

/-- **One instruction.**  Of the instructions that use the stack or a code pointer, those that obey
the rules of 32-bit code are the jumps and calls through a register. -/
theorem disciplined_iff {inst : Inst} {ws : List Word} (huse : inst.op.usesStack = true)
    (hws : Translates p inst ws) : Disciplined p inst ↔ inst.isRegIndirect = true := by
  have hno : ∀ {s : State}, ¬ Obeys default inst ws s → inst.isRegIndirect = false →
      (Disciplined p inst ↔ inst.isRegIndirect = true) := by
    intro s hs hreg
    refine iff_of_false (fun hd => hs (hd ws hws _ (aapcs64_default 80) s)) ?_
    rw [hreg]
    exact Bool.false_ne_true
  have hdir : ∀ {op : Op}, inst.op = op → op ≠ .jmpIndirect → op ≠ .callIndirect →
      inst.isRegIndirect = false := by
    rintro op rfl hj hc
    unfold Inst.isRegIndirect
    split <;> simp_all
  rcases Op.usesStack_cases huse with hop | hop | hop | hop | hop | hop | hop | hop
  · exact hno (not_disciplined_push hop hws) (hdir hop (by decide) (by decide))
  · exact hno (not_disciplined_pop hop hws) (hdir hop (by decide) (by decide))
  · exact hno (not_disciplined_leave hop hws) (hdir hop (by decide) (by decide))
  · exact hno (not_disciplined_call hop hws) (hdir hop (by decide) (by decide))
  · exact hno (not_disciplined_ret hop hws) (hdir hop (by decide) (by decide))
  · exact hno (not_disciplined_retImm hop hws) (hdir hop (by decide) (by decide))
  · obtain ⟨op, h0⟩ := hws.operand (.inl hop)
    by_cases hr : ∃ r size, op = .reg r size
    · obtain ⟨r, size, rfl⟩ := hr
      exact iff_of_true (disciplined_jmp_reg hop h0) (by simp [Inst.isRegIndirect, hop, h0])
    · have hreg : ∀ r size, op ≠ .reg r size := fun r size heq => hr ⟨r, size, heq⟩
      refine iff_of_false (fun hd => not_disciplined_jmp hop h0 hreg hws fun s =>
        hd ws hws _ (aapcs64_default 80) s) ?_
      cases op <;> simp_all [Inst.isRegIndirect]
  · obtain ⟨op, h0⟩ := hws.operand (.inr hop)
    by_cases hr : ∃ r size, op = .reg r size
    · obtain ⟨r, size, rfl⟩ := hr
      exact iff_of_true (disciplined_callIndirect_reg hop h0) (by simp [Inst.isRegIndirect, hop, h0])
    · have hreg : ∀ r size, op ≠ .reg r size := fun r size heq => hr ⟨r, size, heq⟩
      refine iff_of_false (fun hd => not_disciplined_callIndirect hop h0 hreg hws
        (hd ws hws _ (aapcs64_envClobbersX3 80) default)) ?_
      cases op <;> simp_all [Inst.isRegIndirect]

/-- Only the last instruction of a block can be a terminator. -/
theorem decodeLoop_body {longMode : Bool} {fuel : Nat} {rip : BitVec 64} {bs : List Byte}
    {body : List Inst} {term : Inst} {rest : List Byte}
    (h : decodeLoop longMode fuel rip bs = .ok (body, term, rest)) :
    ∀ inst ∈ body, inst.op.isTerminator = false := by
  induction fuel generalizing rip bs body with
  | zero => cases h
  | succ fuel ih =>
    unfold decodeLoop at h
    split at h
    · cases h
    · rename_i inst rest' hnext
      split at h
      · cases h
        simp
      · rename_i hcont
        split at h
        · cases h
        · rename_i body' last rest'' hloop
          cases h
          intro i hi
          rcases List.mem_cons.mp hi with rfl | hi
          · simp only [Bool.or_eq_true, not_or, Bool.not_eq_true] at hcont
            exact hcont.1
          · exact ih hloop i hi

/-- The instructions of a block that get code: the body, and the last one if it is a terminator (when
the bytes end before one, the last instruction is replaced by a stop). -/
def translatedInsts (body : List Inst) (term : Inst) : List Inst :=
  body ++ if term.op.isTerminator then [term] else []

theorem emitBody_lift {bytes : List Byte} {rip : BitVec 64} {legacy32 : Bool} {body : List Inst}
    {e e' : Emitter} {u : Unit} (h : emitBody bytes rip legacy32 body p e = .ok (u, e')) :
    ∀ inst ∈ body, ∃ e₁ e₂, lift legacy32 inst p e₁ = .ok ((), e₂) := by
  induction body generalizing e with
  | nil => simp
  | cons inst body ih =>
    obtain ⟨u₁, e₁, h₁, h₂⟩ := bind_eq_ok h
    intro i hi
    rcases List.mem_cons.mp hi with rfl | hi
    · refine ⟨e, e₁, ?_⟩
      unfold emitBodyInst EmitM.mapErr at h₁
      split at h₁
      · rename_i r hr
        cases h₁
        exact hr
      · cases h₁
      · cases h₁
    · exact ih h₂ i hi

theorem appends_lift {inst : Inst} (huse : inst.op.usesStack = true)
    (hop : inst.op.isTerminator = false) : Emits p (lift true inst) fun _ _ => True := by
  rcases Op.usesStack_cases huse with h | h | h | h | h | h | h | h
  · rw [lift, h]
    exact (emits_liftPush inst).mono fun _ _ _ => trivial
  · rw [lift, h]
    exact (emits_liftPop inst).mono fun _ _ _ => trivial
  · rw [lift, h]
    exact emits_liftLeave.mono fun _ _ _ => trivial
  · rw [h] at hop
    cases hop
  · rw [h] at hop
    cases hop
  · rw [h] at hop
    cases hop
  · rw [h] at hop
    cases hop
  · rw [lift, h]
    cases h0 : inst.operand0 with
    | none =>
      simp only [liftCallIndirect, h0]
      exact Emits.bind Emits.fail
    | some op =>
      cases op with
      | reg r size => exact (emits_liftCallIndirect_reg h0).mono fun _ _ _ => trivial
      | _ =>
        refine (emits_liftCallIndirect_mem h0 fun r size hop => ?_).mono fun _ _ _ => trivial
        cases hop

theorem appends_terminator {inst : Inst} (huse : inst.op.usesStack = true)
    (hop : inst.op.isTerminator = true) : Emits p (emitTerminator inst) fun _ _ => True := by
  rcases Op.usesStack_cases huse with h | h | h | h | h | h | h | h
  · rw [h] at hop
    cases hop
  · rw [h] at hop
    cases hop
  · rw [h] at hop
    cases hop
  · exact (emits_terminator_call h).mono fun _ _ _ => trivial
  · exact (emits_terminator_ret h).mono fun _ _ _ => trivial
  · exact (emits_terminator_retImm h).mono fun _ _ _ => trivial
  · cases h0 : inst.operand0 with
    | none =>
      rw [emitTerminator, h]
      unfold emitIndirectTarget
      rw [h0]
      exact Emits.bind (Emits.bind Emits.fail)
    | some op =>
      cases op with
      | reg r size => exact (emits_terminator_jmp_reg h h0).mono fun _ _ _ => trivial
      | _ => exact (emits_terminator_jmp_mem h h0 nofun).mono fun _ _ _ => trivial
  · rw [h] at hop
    cases hop

/-- Every stack instruction that gets code in a block appends words. -/
theorem translates_of_block {bytes : List Byte} {rip : BitVec 64} {body : List Inst} {term : Inst}
    {rest : List Byte} {blk : Block}
    (hdec : decodeLoop false (bytes.length + 1) rip bytes = .ok (body, term, rest))
    (htr : translateForDispatcher p bytes rip .legacy32 = .ok blk) {inst : Inst}
    (hinst : inst ∈ translatedInsts body term) (huse : inst.op.usesStack = true) :
    ∃ ws, Translates p inst ws := by
  rw [translateForDispatcher, show decide (IsaMode.legacy32 = IsaMode.long) = false from rfl, hdec]
    at htr
  cases hemit : emitBlock bytes rip (decide (IsaMode.legacy32 = IsaMode.legacy32)) body term p
      Emitter.new with
  | error x =>
    dsimp only at htr
    rw [hemit] at htr
    cases htr
  | ok r =>
    obtain ⟨patches, e'⟩ := r
    obtain ⟨-, e₁, -, h₁⟩ := bind_eq_ok hemit
    obtain ⟨u, e₂, hbody, hterm⟩ := bind_eq_ok h₁
    rcases List.mem_append.mp hinst with hmem | hmem
    · have hop := decodeLoop_body hdec inst hmem
      obtain ⟨e₃, e₄, hlift⟩ := emitBody_lift hbody inst hmem
      obtain ⟨ws, rfl, -⟩ := appends_lift huse hop _ _ _ hlift
      exact ⟨ws, .inr ⟨hop, e₃, hlift⟩⟩
    · split at hmem
      · rename_i hop
        obtain rfl := List.mem_singleton.mp hmem
        obtain ⟨ws, rfl, -⟩ := appends_terminator huse hop _ _ _ hterm
        exact ⟨ws, .inl ⟨hop, e₂, patches, hterm⟩⟩
      · cases hmem

/-- **The stack of 32-bit code.**  In a translated 32-bit block the code of every stack instruction
and of every indirect transfer obeys the rules exactly when all of them are jumps and calls through a
register. -/
theorem legacy_discipline_iff {bytes : List Byte} {rip : BitVec 64} {body : List Inst} {term : Inst}
    {rest : List Byte} {blk : Block}
    (hdec : decodeLoop false (bytes.length + 1) rip bytes = .ok (body, term, rest))
    (htr : translateForDispatcher p bytes rip .legacy32 = .ok blk) :
    (∀ inst ∈ translatedInsts body term, inst.op.usesStack = true → Disciplined p inst)
      ↔ ∀ inst ∈ translatedInsts body term, inst.op.usesStack = true →
        inst.isRegIndirect = true := by
  refine forall_congr' fun inst => forall_congr' fun hinst => forall_congr' fun huse => ?_
  obtain ⟨ws, hws⟩ := translates_of_block hdec htr hinst huse
  exact disciplined_iff huse hws

theorem exists_of_isOk {ε α : Type} {x : Except ε α} (h : x.isOk = true) : ∃ a, x = .ok a := by
  cases x with
  | ok a => exact ⟨a, rfl⟩
  | error e => cases h

/-- The bytes of `call eax; jmp eax`. -/
def callJmp : List Byte := [0xFF, 0xD0, 0xFF, 0xE0]

/-- `call eax`, as the decoder gives it. -/
def callEax : Inst :=
  { Inst.empty .callIndirect 0x401000 2 with operand0 := some (.reg .rax .b4) }

/-- `jmp eax` after it. -/
def jmpEax : Inst :=
  { Inst.empty .jmpIndirect 0x401002 2 with operand0 := some (.reg .rax .b4) }

theorem legacy_discipline_iff_callEax :
    ∃ blk, decodeLoop false (callJmp.length + 1) 0x401000 callJmp = .ok ([callEax], jmpEax, []) ∧
      translateForDispatcher ⟨true⟩ callJmp 0x401000 .legacy32 = .ok blk ∧
      ((∀ inst ∈ translatedInsts [callEax] jmpEax, inst.op.usesStack = true →
          Disciplined ⟨true⟩ inst)
        ↔ ∀ inst ∈ translatedInsts [callEax] jmpEax, inst.op.usesStack = true →
          inst.isRegIndirect = true) := by
  have hdec : decodeLoop false (callJmp.length + 1) 0x401000 callJmp
      = .ok ([callEax], jmpEax, []) := by decide
  have hok : (translateForDispatcher ⟨true⟩ callJmp 0x401000 .legacy32).isOk
      = true := by decide +kernel
  obtain ⟨blk, hblk⟩ := exists_of_isOk hok
  exact ⟨blk, hdec, hblk, legacy_discipline_iff hdec hblk⟩

/-- The bytes of `push eax; ret`. -/
def pushRet : List Byte := [0x50, 0xC3]

/-- `push eax`. -/
def pushEax : Inst :=
  { Inst.empty .push 0x401000 1 with operand0 := some (.reg .rax .b4) }

/-- `ret` after it. -/
def retAfterPush : Inst :=
  Inst.empty .ret 0x401001 1

/-- The block `push eax; ret` is translated, and neither instruction obeys. -/
theorem push_ret_not_disciplined :
    decodeLoop false (pushRet.length + 1) 0x401000 pushRet = .ok ([pushEax], retAfterPush, []) ∧
      (translateForDispatcher ⟨true⟩ pushRet 0x401000 .legacy32).isOk = true ∧
      ¬ Disciplined ⟨true⟩ pushEax ∧ ¬ Disciplined ⟨true⟩ retAfterPush := by
  have hdec : decodeLoop false (pushRet.length + 1) 0x401000 pushRet
      = .ok ([pushEax], retAfterPush, []) := by decide
  have hok : (translateForDispatcher ⟨true⟩ pushRet 0x401000 .legacy32).isOk = true := by
    decide +kernel
  obtain ⟨blk, hblk⟩ := exists_of_isOk hok
  have hmem₁ : pushEax ∈ translatedInsts [pushEax] retAfterPush := by simp [translatedInsts]
  have hmem₂ : retAfterPush ∈ translatedInsts [pushEax] retAfterPush := by
    simp [translatedInsts, retAfterPush, Inst.empty, Op.isTerminator]
  obtain ⟨ws, hpush⟩ := translates_of_block hdec hblk hmem₁ rfl
  obtain ⟨ws', hret⟩ := translates_of_block hdec hblk hmem₂ rfl
  refine ⟨hdec, hok, fun hd => ?_, fun hd => ?_⟩
  · exact not_disciplined_push rfl hpush (hd ws hpush _ (aapcs64_default 80) default)
  · exact not_disciplined_ret rfl hret (hd ws' hret _ (aapcs64_default 80) default)

end Quantum.Jit
