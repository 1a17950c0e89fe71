import Quantum.Jit.Equiv.Exchange

/-!
# Exchanges with memory

The destination is loaded to `X17`, with its address in `X16`.  What is stored and written back is right for
32 and 64 bits, and the comparison only for 64; and the offset of the load and the store must fit.
-/

namespace Quantum.Jit

open A64
open EmitM
open ByteMem (read write)

variable {p : Profile}

/-! ### The store of a memory operand -/

/-- The store of a size. -/
def OpSize.storing : OpSize → Access
  | .b8 => .str64
  | .b4 => .str32
  | .b2 => .strh
  | .b1 => .strb

theorem OpSize.storing_bytes (size : OpSize) : size.storing.bytes = size.bytes := by
  cases size <;> rfl

/-- The word of the store of `rt` at an offset from `X16`, also when the offset does not fit. -/
def storeWord (size : OpSize) (offset : BitVec 32) (rt : Reg) : Word :=
  ldstUoffWord size.storing.size size.storing.v size.storing.opc
    (offset / BitVec.ofNat 32 size.storing.bytes) 16 rt

/-- The word of the store of `rt` to a memory operand. -/
def storeWordFrom (op : Operand) (rt : Reg) : Word :=
  storeWord op.memSize op.leftover rt

theorem emits_storeSized_word (size : OpSize) (offset : BitVec 32) (rt : Reg) :
    Emits p (storeSized rt 16 offset size) fun _ is => is = [decode (storeWord size offset rt)] := by
  have hstore : storeSized rt 16 offset size = size.storing.emit rt 16 offset := by
    cases size <;> rfl
  rw [hstore, Access.emit_eq]
  exact emits_ldstScaled (Access.bytes_lt _) fun _ => rfl

theorem decode_storeWordFrom {op : Operand} (rt : Reg) (hfit : Fits op.memSize.bytes op.leftover) :
    decode (storeWordFrom op rt) = some (storeInsn op.memSize rt 16 op.leftover) := by
  unfold storeWordFrom storeWord
  rw [decode_ldstScaled (Access.bytes_lt _) (by rw [OpSize.storing_bytes]; exact hfit), OpSize.storing_bytes]
  unfold storeInsn
  cases op.memSize <;> rfl

/-! ### States to probe the code with -/

section Probes

variable (inst : Inst) (size : OpSize) (dst : Operand) (s : State) (v : BitVec 64)

theorem guest_writeXsp_31 : guest (s.writeXsp 31#5 v) = guest s := by
  funext g
  show (s.writeXsp 31#5 v).x (hostReg g) = _
  rw [State.x_writeXsp, if_neg (hostReg_ne_31 g)]
  rfl

theorem effectiveAddress_writeXsp_31 :
    effectiveAddress inst (s.writeXsp 31#5 v) dst = effectiveAddress inst s dst := by
  have hseg : segBase (s.writeXsp 31#5 v) = segBase s := by
    funext sg
    show (s.writeXsp 31#5 v).x (segReg sg) = _
    rw [State.x_writeXsp, if_neg (by cases sg <;> decide)]
    rfl
  cases dst with
  | mem m => exact congrArg₂ m.address (guest_writeXsp_31 s v) hseg
  | _ => rfl

/-- A host stack that ends shortly below the operand. -/
theorem offStack_below {d : BitVec 64} (hd : d.toNat < 2 ^ 63) :
    OffStack inst size dst (s.writeXsp 31#5 (effectiveAddress inst s dst - d)) := by
  rintro - b hlow hhigh
  have hbytes : size.bytes ≤ 8 := by
    cases size <;> decide
  rw [effectiveAddress_writeXsp_31] at hhigh
  rw [State.x_writeXsp, if_pos rfl] at hlow
  unfold InRange at hlow hhigh
  generalize effectiveAddress inst s dst = a at hlow hhigh
  bv_omega

/-- All registers are zero, the operand is one, and the host's stack ends below the base of the operand. -/
def belowOne (inst : Inst) (dst : Operand) : State :=
  oneAt inst dst ((default : State).writeXsp 31#5
    (effectiveAddress inst default dst - dst.leftover.setWidth 64))

theorem guest_belowOne : guest (belowOne inst dst) = fun _ => 0 :=
  guest_writeXsp_31 default _

theorem effectiveAddress_belowOne :
    effectiveAddress inst (belowOne inst dst) dst = effectiveAddress inst default dst :=
  (effectiveAddress_oneAt inst dst _).trans (effectiveAddress_writeXsp_31 inst dst default _)

theorem offStack_belowOne : OffStack inst size dst (belowOne inst dst) := by
  have hoff := @offStack_below inst size dst default (dst.leftover.setWidth 64) ?_
  · intro hm
    have hdis := hoff hm
    rw [effectiveAddress_writeXsp_31] at hdis
    rw [effectiveAddress_belowOne]
    exact hdis
  · rw [BitVec.toNat_setWidth]
    have hlt := dst.leftover.isLt
    omega

/-- A register that one was written to has its low bit. -/
theorem low_into_one (old : BitVec 64) : (size.into old 1#64).setWidth 8 ≠ 0 := by
  intro h
  have hpos : 0 < 8 * size.bytes := by
    cases size <;> decide
  have hbit : ((size.into old 1#64).setWidth 8).getLsbD 0 = true := by
    rw [BitVec.getLsbD_setWidth, OpSize.getLsbD_into, if_pos hpos]
    rfl
  rw [h] at hbit
  cases hbit

end Probes

/-! ### A destination in memory -/

section Memory

variable {inst : Inst} {dst : Operand} {size : OpSize} {r : GpReg} {is js ks : List (Option Insn)}
  {ws : List Word}

theorem GuestState.put_isMem (hm : dst.isMem = true) (size : OpSize) (a v : BitVec 64) (g : GuestState) :
    g.put size a dst v = { g with mem := g.mem.write size.bytes a v } := by
  cases dst <;> first | rfl | cases hm

theorem oldValue_isMem (hm : dst.isMem = true) (s : State) :
    oldValue inst dst.memSize dst s = memValue inst s dst.memSize dst :=
  hostValue_of_isMem hm s

theorem after_xchg_mem (hm : dst.isMem = true) (s : State) : ExchangeOp.xchg.after inst dst.memSize dst r s =
    ⟨Function.update (guest s) r (dst.memSize.into (guest s r) (memValue inst s dst.memSize dst)),
      s.mem.write dst.memSize.bytes (effectiveAddress inst s dst) (guest s r)⟩ := by
  simp only [ExchangeOp.after, ExchangeOp.exchange, GuestState.put_isMem hm, oldValue_isMem hm]
  rfl

theorem after_xadd_mem (hm : dst.isMem = true) (s : State) : ExchangeOp.xadd.after inst dst.memSize dst r s =
    ⟨Function.update (guest s) r (dst.memSize.into (guest s r) (memValue inst s dst.memSize dst)),
      s.mem.write dst.memSize.bytes (effectiveAddress inst s dst)
        (memValue inst s dst.memSize dst + guest s r)⟩ := by
  simp only [ExchangeOp.after, ExchangeOp.exchange, GuestState.put_isMem hm, oldValue_isMem hm]
  rfl

theorem after_cmpxchg_mem (hm : dst.isMem = true) (s : State) :
    ExchangeOp.cmpxchg.after inst dst.memSize dst r s =
      if AccEqual dst.memSize (memValue inst s dst.memSize dst) (guest s) then
        ⟨guest s, s.mem.write dst.memSize.bytes (effectiveAddress inst s dst) (guest s r)⟩
      else ⟨Function.update (guest s) .rax
          (dst.memSize.into (guest s .rax) (memValue inst s dst.memSize dst)),
        s.mem⟩ := by
  simp only [ExchangeOp.after, ExchangeOp.exchange, GuestState.put_isMem hm, oldValue_isMem hm]
  rfl

/-- A value loaded at 32 or 64 bits is what a register gets of it. -/
theorem into_memValue (hsize : dst.memSize = .b8 ∨ dst.memSize = .b4) (old : BitVec 64) (s : State) :
    memValue inst s dst.memSize dst = dst.memSize.into old (memValue inst s dst.memSize dst) := by
  have hread := OpSize.zeroExtended_read dst.memSize s.mem (effectiveAddress inst s dst)
  unfold memValue
  rcases hsize with h | h
  · rw [h]
    rfl
  · rw [h] at hread ⊢
    exact hread.symm

/-- Below 32 bits a register with ones keeps some of them. -/
theorem memSize_of_into {v : BitVec 64} (hv : v.getLsbD 63 = false) (h : v = size.into (-1) v) :
    size = .b8 ∨ size = .b4 := by
  cases size with
  | b8 => exact .inl rfl
  | b4 => exact .inr rfl
  | b1 | b2 =>
    have hbit := congrArg (fun v => v.getLsbD 63) h
    rw [OpSize.getLsbD_into, hv, if_neg (by decide), if_neg (by decide)] at hbit
    exact absurd hbit (by decide)

/-- The loaded value is what a register gets of it, from every state, at 32 and 64 bits only. -/
theorem into_memValue_iff (op : ExchangeOp) (r : GpReg) :
    (∀ s, (op = .xadd → OffStack inst dst.memSize dst s) → memValue inst s dst.memSize dst
      = dst.memSize.into (guest s r) (memValue inst s dst.memSize dst)) ↔
    dst.memSize = .b8 ∨ dst.memSize = .b4 := by
  constructor
  · intro hall
    -- all registers are ones, and memory is zero
    have hprobe := hall _ fun _ => @offStack_below inst _ dst (uniform (-1) 0) 0 (by decide)
    rw [guest_writeXsp_31] at hprobe
    refine memSize_of_into ?_ hprobe
    rw [memValue, ByteMem.getLsbD_read]
    simp [uniform]
  · exact fun hsize s _ => into_memValue hsize _ s

/-- The mask of the size leaves a loaded value. -/
theorem maskVal_memValue (s : State) :
    maskVal dst.memSize (memValue inst s dst.memSize dst) = memValue inst s dst.memSize dst := by
  by_cases h4 : dst.memSize = .b4
  · rw [memValue, h4, maskVal_b4]
    exact OpSize.zeroExtended_read .b4 _ _
  · exact if_neg h4

/-! ### `XCHG` -/

theorem emits_xchgMem :
    Emits p (xchgMem inst r dst) fun _ is => ∃ is₁, LoadCode inst dst is₁ ∧
      is = is₁ ++ [decode (storeWordFrom dst (hostReg r)), some (.logicShift .orr 17 0 31 (hostReg r))] := by
  unfold xchgMem
  refine Emits.bind ((emits_loadOperand_code dst inst).mono ?_)
  rintro l is₁ ⟨rfl, hload⟩
  refine Emits.bind ((emits_storeSized_word dst.memSize dst.leftover (hostReg r)).mono ?_)
  rintro - is ⟨rfl⟩
  exact emits_mov64 ⟨is₁, hload, rfl⟩

theorem runSeq_xchgMem (hload : LoadCode inst dst is) (hfit : Fits dst.memSize.bytes dst.leftover) (env : Env)
    (pc : Nat) (s : State) : ∃ s', runSeq env pc (is ++
      [decode (storeWordFrom dst (hostReg r)), some (.logicShift .orr 17 0 31 (hostReg r))]) s = some s' ∧
    guest s' = Function.update (guest s) r (memValue inst s dst.memSize dst) ∧
    s'.mem = s.mem.write dst.memSize.bytes (effectiveAddress inst s dst) (guest s r) ∧ s'.v = s.v := by
  rw [runSeq_append, hload.loads hfit, Option.bind_some, decode_storeWordFrom _ hfit, runSeq_storeInsn hfit,
    runSeq_mov64, runSeq_nil]
  refine ⟨_, rfl, ?_, ?_, by simp⟩
  · rw [guest_writeX_hostReg, guest_mem, guest_writeX_17, guest_writeX_16, State.readX_mem]
    simp
  · rw [State.writeX_mem, readX_guest, guest_writeX_17, guest_writeX_16]
    simp

/-- A store whose offset does not fit changes no register but its own, and no byte right below the base. -/
theorem misstores {env : Env} {pc : Nat} {s s' : State} {rt : Reg} (henv : ∀ w v, env.simdScalar w v = none)
    (h31 : rt ≠ 31#5) (hfit : ¬ Fits dst.memSize.bytes dst.leftover)
    (hrun : runSeq env pc [decode (storeWordFrom dst rt)] s = some s') :
    (∀ q, q ≠ rt → s'.x q = s.x q) ∧ ∀ b, InRange (s.x 16#5 - 16) 16 b → s'.mem b = s.mem b := by
  rw [← OpSize.storing_bytes] at hfit
  obtain ⟨hregs, -, hmem⟩ := misencoded_access henv h31 hfit hrun
  exact ⟨hregs, hmem⟩

theorem oldValue_belowOne (hm : dst.isMem = true) :
    oldValue inst dst.memSize dst (belowOne inst dst) = 1 := by
  rw [oldValue_isMem hm]
  exact memValue_oneAt inst dst _

/-- The source gets the one from memory. -/
theorem low_of_exchanged {op : ExchangeOp} {s' : State} (hm : dst.isMem = true)
    (hop : op = .xchg ∨ op = .xadd)
    (h : Exchanged op inst dst.memSize dst r (belowOne inst dst) s') : (guest s' r).setWidth 8 ≠ 0 := by
  have hone : memValue inst (belowOne inst dst) dst.memSize dst = 1#64 := memValue_oneAt inst dst _
  have hr : guest s' r = dst.memSize.into (guest (belowOne inst dst) r) 1#64 := by
    rw [h.regs, ← hone]
    rcases hop with rfl | rfl
    · rw [after_xchg_mem hm]
      exact Function.update_self ..
    · rw [after_xadd_mem hm]
      exact Function.update_self ..
  rw [hr]
  exact low_into_one _ _

theorem xchg_mem_fits (hm : dst.isMem = true) (hload : LoadCode inst dst is)
    (hws : ws.map decode = is ++
      [decode (storeWordFrom dst (hostReg r)), some (.logicShift .orr 17 0 31 (hostReg r))])
    (h : ExchangeCorrect .xchg inst dst.memSize dst r ws) : Fits dst.memSize.bytes dst.leftover := by
  by_contra hfit
  obtain ⟨s', hexec, hx⟩ := h default (belowOne inst dst) fun _ => offStack_belowOne inst _ dst
  have hlin : ∀ i, some i ∈ is ++ [decode (storeWordFrom dst (hostReg r)),
      some (.logicShift .orr 17 0 31 (hostReg r))] → i.isLinear = true := by
    intro i hi
    simp only [List.mem_append, List.mem_cons, Option.some.injEq, List.not_mem_nil, or_false] at hi
    rcases hi with hi | hi | rfl
    · exact hload.isLinear i hi
    · exact isLinear_ldstUoffWord hi
    · rfl
  obtain ⟨t, ht, hrest⟩ := exec_append hws hlin hexec
  obtain ⟨hlow, -, -⟩ := hload.misloads (fun _ _ => rfl) hfit rfl ht
  rw [← List.singleton_append, runSeq_append, Option.bind_eq_some_iff] at hrest
  obtain ⟨t', ht', hmov⟩ := hrest
  obtain ⟨hregs, -⟩ := misstores (fun _ _ => rfl) (hostReg_ne_31 r) hfit ht'
  rw [runSeq_mov64, runSeq_nil, Option.some.injEq] at hmov
  have hr : guest s' r = t.x 17#5 := by
    rw [← hmov, guest_writeX_hostReg, Function.update_self, State.readX_of_ne _ _ (by decide)]
    exact hregs 17#5 (IsScratch.hostReg_ne (.inr rfl) r).symm
  rw [← hr] at hlow
  exact low_of_exchanged hm (.inl rfl) hx hlow

/-- **`XCHG` with memory.** -/
theorem xchg_mem_iff (hm : dst.isMem = true) (h0 : inst.operand0 = some dst)
    (h1 : inst.operand1 = some (.reg r dst.memSize)) (hws : compile p (liftXchg inst) = some ws) :
    ExchangeCorrect .xchg inst dst.memSize dst r ws ↔
      Fits dst.memSize.bytes dst.leftover ∧ (dst.memSize = .b8 ∨ dst.memSize = .b4) := by
  have hlift : liftXchg inst = xchgMem inst r dst := by
    unfold liftXchg
    rw [h0, h1]
    cases dst <;> first | rfl | cases hm
  rw [hlift] at hws
  obtain ⟨-, is, hload, hcode⟩ := emits_xchgMem.of_compile hws
  -- with an offset that fits the run is known, and only the write to the source may be wrong
  have hiff : Fits dst.memSize.bytes dst.leftover → (ExchangeCorrect .xchg inst dst.memSize dst r ws ↔
      ∀ s, (ExchangeOp.xchg = .xadd → OffStack inst dst.memSize dst s) → memValue inst s dst.memSize dst
        = dst.memSize.into (guest s r) (memValue inst s dst.memSize dst)) := by
    intro hfit
    refine exchangeCorrect_iff fun env s _ => ?_
    obtain ⟨s', hrun, hguest, hmem, hv⟩ := runSeq_xchgMem hload hfit env 0 s
    refine ⟨s', exec_of_runSeq (by rw [hcode]; exact hrun), fun hx => ?_, fun heq => ?_⟩
    · have hr := congrFun hx.regs r
      rw [hguest, after_xchg_mem hm, Function.update_self] at hr
      exact hr.trans (Function.update_self ..)
    · have hafter := @after_xchg_mem inst dst r hm s
      refine ⟨?_, fun b _ => ?_, hv, fun hc => nomatch hc⟩
      · rw [hguest, hafter, ← heq]
      · rw [hmem, hafter]
  rw [← @into_memValue_iff inst dst .xchg r]
  constructor
  · intro h
    have hfit := xchg_mem_fits hm hload hcode h
    exact ⟨hfit, (hiff hfit).mp h⟩
  · exact fun h => (hiff h.1).mpr h.2

/-! ### `XADD` -/

/-- The code: the old value waits on the host's stack while the sum is stored. -/
def AddCode (inst : Inst) (dst : Operand) (size : OpSize) (r : GpReg) (is : List (Option Insn)) : Prop :=
  ∃ is₁ is₂ is₃, LoadCode inst dst is₁ ∧ Combines ArithKind.add.alu size 17#5 17#5 (hostReg r) is₂ ∧
    Sets (hostReg r) (fun s => maskVal size (s.x (hostReg r))) is₃ ∧
    is = is₁ ++ ((some (pushInsn 17 31) :: is₂) ++
      ([decode (storeWordFrom dst 17)] ++ (some (popInsn (hostReg r) 31) :: is₃)))

theorem emits_xaddMem : Emits p (xaddMem inst dst r size) fun _ is => AddCode inst dst size r is := by
  unfold xaddMem
  refine Emits.bind ((emits_loadOperand_code dst inst).mono ?_)
  rintro l is₁ ⟨rfl, hload⟩
  refine Emits.bind (emits_stp64Pre (Emits.bind ?_))
  refine (binary_emitArithRr .add (by decide) (by decide) (hostReg_ne_31 r)).mono fun _ is₂ hadd => ?_
  refine Emits.bind ((emits_storeSized_word dst.memSize dst.leftover 17).mono ?_)
  rintro - is ⟨rfl⟩
  refine Emits.bind (emits_ldp64Post (emits_maskB4 (hostReg_ne_31 r) fun is₃ hmask => ?_))
  refine ⟨is₁, is₂, is₃, hload, hadd, hmask, ?_⟩
  simp [pushInsn, popInsn, storeWordFrom]

/-- The old value is pushed, and the sum computed. -/
theorem runSeq_pushAdd (hadd : Combines ArithKind.add.alu size 17#5 17#5 (hostReg r) is) (env : Env)
    (pc : Nat) (t : State) : ∃ s', runSeq env pc (some (pushInsn 17 31) :: is) t = some s' ∧ guest s' = guest t ∧
      s'.x 16#5 = t.x 16#5 ∧ s'.x 17#5 = maskVal size (t.x 17#5 + guest t r) ∧ s'.x 31#5 = t.x 31#5 - 16#64 ∧
      s'.mem = t.mem.push2 (t.x 31#5) (t.x 17#5) 0 ∧ s'.v = t.v := by
  have hguest : guest (t.pushPair 17 31) = guest t := by
    funext g
    show (t.pushPair 17 31).x (hostReg g) = _
    rw [State.pushPair_x, if_neg (hostReg_ne_31 g)]
    rfl
  have halu : ∀ f a b, ArithKind.add.alu.result f a b = a + b := fun f a b => addc_false a b
  have hr : (t.pushPair 17 31).x (hostReg r) = guest t r := congrFun hguest r
  rw [runSeq_cons, execOne_pushInsn, Option.bind_some, hadd, hr]
  refine ⟨_, rfl, ?_, ?_, ?_, ?_, ?_, ?_⟩
  · rw [Alu.write, guest_nzcv, guest_writeX_17, hguest]
  · simp [Alu.write]
  · simp [Alu.write, halu]
  · simp [Alu.write]
  · simp [Alu.write, State.readX]
  · simp [Alu.write]

/-- The old value is popped into the source. -/
theorem runSeq_popMask (hmask : Sets (hostReg r) (fun s => maskVal size (s.x (hostReg r))) is) (env : Env)
    (pc : Nat) (t : State) : ∃ s', runSeq env pc (some (popInsn (hostReg r) 31) :: is) t = some s' ∧
      guest s' = Function.update (guest t) r (maskVal size (t.mem.read 64 8 (t.x 31#5))) ∧ s'.mem = t.mem ∧
      s'.v = t.v := by
  have hguest : guest (t.popPair (hostReg r) 31)
      = Function.update (guest t) r (t.mem.read 64 8 (t.x 31#5)) := by
    funext g
    show (t.popPair (hostReg r) 31).x (hostReg g) = _
    rw [State.popPair_x, if_neg (hostReg_ne_31 g), Function.update_apply]
    simp [guest]
  have hr : (t.popPair (hostReg r) 31).x (hostReg r) = t.mem.read 64 8 (t.x 31#5) := by
    exact (congrFun hguest r).trans (Function.update_self ..)
  rw [runSeq_cons, execOne_popInsn, Option.bind_some, hmask]
  refine ⟨_, rfl, ?_, by simp, by simp⟩
  dsimp only
  rw [guest_writeX_hostReg, hguest, hr, Function.update_idem]

/-- The word that was pushed last. -/
theorem read_push2 (m : ByteMem) (a u v : BitVec 64) : read 64 8 (m.push2 a u v) (a - 16#64) = u := by
  have hnone : ByteMem.WordsAt m a [] := trivial
  exact (hnone.push2 (by decide)).1

/-- The mask of the size does not change what is stored. -/
theorem write_maskVal (size : OpSize) (m : ByteMem) (a v : BitVec 64) :
    m.write size.bytes a (maskVal size v) = m.write size.bytes a v := by
  by_cases h4 : size = .b4
  · subst h4
    funext b
    unfold write
    split
    · rename_i hb
      rw [maskVal_b4]
      apply BitVec.eq_of_getLsbD_eq
      intro i hi
      have hlow : 8 * (b - a).toNat + i < 8 * OpSize.b4.bytes := by omega
      rw [BitVec.getLsbD_extractLsb', BitVec.getLsbD_extractLsb', OpSize.getLsbD_zeroExtended,
        decide_eq_true hlow, Bool.true_and]
    · rfl
  · rw [maskVal, if_neg h4]

/-- The code of `XADD` with memory, run. -/
theorem runSeq_xaddMem (h : AddCode inst dst dst.memSize r is) (hfit : Fits dst.memSize.bytes dst.leftover)
    (env : Env) (s : State)
    (hoff : Disjoint64 (s.x 31#5 - 16#64) 16 (effectiveAddress inst s dst) dst.memSize.bytes) :
    ∃ s', runSeq env 0 is s = some s' ∧
      guest s' = Function.update (guest s) r (memValue inst s dst.memSize dst) ∧
      (∀ b, ¬ BelowStack s b → s'.mem b = s.mem.write dst.memSize.bytes (effectiveAddress inst s dst)
        (memValue inst s dst.memSize dst + guest s r) b) ∧ s'.v = s.v := by
  obtain ⟨is₁, is₂, is₃, hload, hadd, hmask, rfl⟩ := h
  obtain ⟨d, hd⟩ : ∃ d, d = memValue inst s dst.memSize dst := ⟨_, rfl⟩
  obtain ⟨a, ha⟩ : ∃ a, a = effectiveAddress inst s dst := ⟨_, rfl⟩
  rw [← ha] at hoff
  rw [← hd, ← ha]
  -- the load
  obtain ⟨t, ht, hguest, h16, h17, h31, hmem, hv⟩ : ∃ t, runSeq env 0 is₁ s = some t ∧ guest t = guest s ∧
      t.x 16#5 = a - dst.leftover.setWidth 64 ∧ t.x 17#5 = d ∧ t.x 31#5 = s.x 31#5 ∧ t.mem = s.mem ∧
      t.v = s.v := by
    refine ⟨_, hload.loads hfit env 0 s, ?_, ?_, ?_, ?_, ?_, ?_⟩ <;> simp [ha, hd]
  -- the sum, with the old value on the stack
  obtain ⟨t₁, ht₁, hguest₁, h16₁, h17₁, h31₁, hmem₁, hv₁⟩ := runSeq_pushAdd hadd env (0 + is₁.length) t
  have hbase : t₁.x 16 = a - dst.leftover.setWidth 64 := h16₁.trans h16
  rw [runSeq_append, ht, Option.bind_some, runSeq_append, ht₁, Option.bind_some, List.singleton_append,
    decode_storeWordFrom _ hfit, runSeq_storeInsn hfit, State.readX_of_ne _ _ (by decide), hbase,
    BitVec.sub_add_cancel]
  obtain ⟨s', hs', hguest', hmem', hv'⟩ := runSeq_popMask hmask env
    (0 + is₁.length + (some (pushInsn 17 31) :: is₂).length + 1)
    { t₁ with mem := t₁.mem.write dst.memSize.bytes a (t₁.x 17) }
  refine ⟨s', hs', ?_, ?_, ?_⟩
  · -- the slot still holds the old value
    have hslot : Disjoint64 (s.x 31#5 - 16#64) 8 a dst.memSize.bytes := by
      intro b hb
      apply hoff b
      unfold InRange at hb ⊢
      omega
    rw [hguest', guest_mem, hguest₁, hguest, h31₁, h31]
    rw [ByteMem.read_write_of_disjoint 64 hslot, hmem₁, h31, h17, read_push2, hd, maskVal_memValue]
  · intro b hb
    have h17' : t₁.x 17 = maskVal dst.memSize (d + guest s r) := by
      rw [← h17, ← hguest]
      exact h17₁
    rw [hmem']
    dsimp only
    rw [h17', hmem₁, h31, hmem, write_maskVal]
    by_cases hin : InRange a dst.memSize.bytes b
    · rw [ByteMem.write_of_inRange hin, ByteMem.write_of_inRange hin]
    · rw [ByteMem.write_of_not_inRange hin, ByteMem.write_of_not_inRange hin, ByteMem.push2_of_not_inRange hb]
  · rw [hv', hv₁, hv]

theorem maskVal_setWidth_8 (size : OpSize) (v : BitVec 64) : (maskVal size v).setWidth 8 = v.setWidth 8 := by
  by_cases h4 : size = .b4
  · rw [h4, maskVal_b4]
    apply BitVec.eq_of_getLsbD_eq
    intro i hi
    have hlow : i < 8 * OpSize.b4.bytes := Nat.lt_trans hi (by decide)
    rw [BitVec.getLsbD_setWidth, BitVec.getLsbD_setWidth, OpSize.getLsbD_zeroExtended, decide_eq_true hlow,
      Bool.true_and]
  · rw [maskVal, if_neg h4]

theorem xadd_mem_fits (hm : dst.isMem = true) (hcode : AddCode inst dst dst.memSize r (ws.map decode))
    (h : ExchangeCorrect .xadd inst dst.memSize dst r ws) : Fits dst.memSize.bytes dst.leftover := by
  by_contra hfit
  obtain ⟨s', hexec, hx⟩ := h default (belowOne inst dst) fun _ => offStack_belowOne inst _ dst
  obtain ⟨is₁, is₂, is₃, hload, hadd, hmask, hws⟩ := hcode
  have hlin : ∀ i, some i ∈ is₁ ++ ((some (pushInsn 17 31) :: is₂) ++
      ([decode (storeWordFrom dst 17)] ++ (some (popInsn (hostReg r) 31) :: is₃))) → i.isLinear = true := by
    obtain ⟨t, ht, -⟩ := runSeq_pushAdd hadd default 0 default
    obtain ⟨u, hu, -⟩ := runSeq_popMask hmask default 0 default
    intro i hi
    rcases List.mem_append.mp hi with hi | hi
    · exact hload.isLinear i hi
    rcases List.mem_append.mp hi with hi | hi
    · exact isLinear_of_runSeq ht i hi
    rcases List.mem_append.mp hi with hi | hi
    · exact isLinear_ldstUoffWord (List.mem_singleton.mp hi)
    · exact isLinear_of_runSeq hu i hi
  obtain ⟨t, ht, hrest⟩ := exec_append hws hlin hexec
  obtain ⟨hlow, h16, hregs⟩ := hload.misloads (fun _ _ => rfl) hfit rfl ht
  obtain ⟨t₁, ht₁, -, h16₁, -, h31₁, hmem₁, -⟩ := runSeq_pushAdd hadd default is₁.length t
  rw [runSeq_append, ht₁, Option.bind_some, runSeq_append, Option.bind_eq_some_iff] at hrest
  obtain ⟨t₂, ht₂, hpop⟩ := hrest
  obtain ⟨hregs₂, hmem₂⟩ := misstores (fun _ _ => rfl) (by decide) hfit ht₂
  obtain ⟨u, hu, hguest, -⟩ := runSeq_popMask hmask default _ t₂
  rw [hpop, Option.some.injEq] at hu
  -- the host's stack is where the base of the operand is
  have h31 : t.x 31#5 = t.x 16#5 := by
    rw [h16, effectiveAddress_writeXsp_31, hregs _ (by decide) (by decide), State.x_writeXsp, if_pos rfl]
  have hslot : t₂.mem.read 64 8 (t₂.x 31#5) = t.x 17#5 := by
    rw [hregs₂ _ (by decide), h31₁, ← read_push2 t.mem (t.x 31#5) (t.x 17#5) 0, ← hmem₁]
    refine ByteMem.read_congr 64 fun b hb => hmem₂ b ?_
    rw [h16₁, ← h31]
    exact Nat.lt_trans hb (by decide)
  have hr : guest s' r = maskVal dst.memSize (t.x 17#5) := by
    rw [hu, hguest, Function.update_self, hslot]
  refine low_of_exchanged hm (.inr rfl) hx ?_
  rw [hr, maskVal_setWidth_8, hlow]

/-- **`XADD` with memory.** -/
theorem xadd_mem_iff (hm : dst.isMem = true) (h0 : inst.operand0 = some dst)
    (h1 : inst.operand1 = some (.reg r dst.memSize)) (hws : compile p (liftXadd inst) = some ws) :
    ExchangeCorrect .xadd inst dst.memSize dst r ws ↔
      Fits dst.memSize.bytes dst.leftover ∧ (dst.memSize = .b8 ∨ dst.memSize = .b4) := by
  have hlift : liftXadd inst = xaddMem inst dst r dst.memSize := by
    unfold liftXadd
    rw [h0, h1]
    cases dst <;> first | rfl | cases hm
  rw [hlift] at hws
  obtain ⟨-, hcode⟩ := emits_xaddMem.of_compile hws
  -- with an offset that fits the run is known, and only the write to the source may be wrong
  have hiff : Fits dst.memSize.bytes dst.leftover → (ExchangeCorrect .xadd inst dst.memSize dst r ws ↔
      ∀ s, (ExchangeOp.xadd = .xadd → OffStack inst dst.memSize dst s) → memValue inst s dst.memSize dst
        = dst.memSize.into (guest s r) (memValue inst s dst.memSize dst)) := by
    intro hfit
    refine exchangeCorrect_iff fun env s hoff => ?_
    obtain ⟨s', hrun, hguest, hmem, hv⟩ := runSeq_xaddMem hcode hfit env s (hoff rfl hm)
    refine ⟨s', exec_of_runSeq hrun, fun hx => ?_, fun heq => ?_⟩
    · have hr := congrFun hx.regs r
      rw [hguest, after_xadd_mem hm, Function.update_self] at hr
      exact hr.trans (Function.update_self ..)
    · have hafter := @after_xadd_mem inst dst r hm s
      refine ⟨?_, fun b hb => ?_, hv, fun hc => nomatch hc⟩
      · rw [hguest, hafter, ← heq]
      · rw [hmem b (hb rfl), hafter]
  rw [← @into_memValue_iff inst dst .xadd r]
  constructor
  · intro h
    have hfit := xadd_mem_fits hm hcode h
    exact ⟨hfit, (hiff hfit).mp h⟩
  · exact fun h => (hiff h.1).mpr h.2

/-! ### `CMPXCHG` -/

/-- The code: the comparison, the store, and the move of the old value to the accumulator. -/
def CompareCode (inst : Inst) (dst : Operand) (size : OpSize) (r : GpReg) (ws : List Word) : Prop :=
  ∃ is ks, LoadCode inst dst is ∧ Sets (hostReg .rax) (fun s => maskVal size (s.x 17#5)) ks ∧
    TwoArms .ne (is ++ [some (.addSubShift true true 17 0 (hostReg .rax) 31)])
      [decode (storeWordFrom dst (hostReg r))] ks ws

theorem compareCode_of_compile (hws : compile p (cmpxchgMem inst dst r size) = some ws) :
    CompareCode inst dst size r ws := by
  have hlift : cmpxchgMem inst dst r size = (do
      let l ← (do
        let l ← loadOperand dst inst dst.memSize
        cmp64 (hostReg .rax) 17
        pure l : LiftM (BitVec 32))
      emitTwoArms .ne (storeSized (hostReg r) 16 l dst.memSize)
        (do mov64 (hostReg .rax) 17; maskB4 size (hostReg .rax))) := by
    unfold cmpxchgMem
    simp only [cmpxchgTail_eq, emit_bind_assoc]
    rfl
  rw [hlift] at hws
  have hblock : Emits p (do
        let l ← loadOperand dst inst dst.memSize
        cmp64 (hostReg .rax) 17
        pure l : LiftM (BitVec 32))
      fun l is => l = dst.leftover ∧ ∃ is₁, LoadCode inst dst is₁ ∧
        is = is₁ ++ [some (.addSubShift true true 17 0 (hostReg .rax) 31)] := by
    refine Emits.bind ((emits_loadOperand_code dst inst).mono ?_)
    rintro l is₁ ⟨rfl, hload⟩
    exact Emits.bind (emits_subs64 (Emits.pure ⟨rfl, is₁, hload, rfl⟩))
  obtain ⟨l, is, js, ks, ⟨rfl, is₁, hload, rfl⟩, rfl, hks, htwo⟩ := compile_twoArms hblock
    (fun l => emits_storeSized_word dst.memSize l (hostReg r))
    (fun _ => emits_maskedMove size .rax (by decide)) hws
  exact ⟨is₁, ks, hload, hks, htwo⟩

/-- The code of `CMPXCHG` with memory, run. -/
theorem exec_cmpxchgMem (h : CompareCode inst dst dst.memSize r ws)
    (hfit : Fits dst.memSize.bytes dst.leftover) (env : Env) (s : State) : ∃ s', Exec env ws s s' ∧
      s'.nzcv = A64.addFlags (guest s .rax) (~~~memValue inst s dst.memSize dst) true ∧ s'.v = s.v ∧
      (⟨guest s', s'.mem⟩ : GuestState) = if guest s .rax = memValue inst s dst.memSize dst
        then ⟨guest s, s.mem.write dst.memSize.bytes (effectiveAddress inst s dst) (guest s r)⟩
        else ⟨Function.update (guest s) .rax (memValue inst s dst.memSize dst), s.mem⟩ := by
  obtain ⟨is, ks, hload, hks, htwo⟩ := h
  obtain ⟨d, hd⟩ : ∃ d, d = memValue inst s dst.memSize dst := ⟨_, rfl⟩
  have hmask : maskVal dst.memSize d = d := by
    rw [hd, maskVal_memValue]
  rw [← hd]
  -- the load and the comparison
  obtain ⟨t, ht, hguest, h16, h17, hmem, hv, hflags⟩ : ∃ t,
      runSeq env 0 (is ++ [some (.addSubShift true true 17 0 (hostReg .rax) 31)]) s = some t ∧
      guest t = guest s ∧ t.x 16 = effectiveAddress inst s dst - dst.leftover.setWidth 64 ∧
      t.x 17#5 = d ∧ t.mem = s.mem ∧ t.v = s.v ∧
      t.nzcv = A64.addFlags (guest s .rax) (~~~d) true := by
    obtain ⟨u, hu⟩ : ∃ u, u =
        (s.writeX 16#5 (effectiveAddress inst s dst - dst.leftover.setWidth 64)).writeX 17#5 d := ⟨_, rfl⟩
    have hguest : guest u = guest s := by
      rw [hu, guest_writeX_17, guest_writeX_16]
    have h17 : u.x 17#5 = d := by
      simp [hu]
    rw [runSeq_append, hload.loads hfit, ← hd, ← hu, Option.bind_some, runSeq_cmp64, runSeq_nil]
    refine ⟨_, rfl, hguest, ?_, h17, ?_, ?_, ?_⟩
    · simp [hu]
    · simp [hu]
    · simp [hu]
    · rw [readX_guest, hguest, State.readX_of_ne _ _ (by decide)]
      exact congrArg (fun d => A64.addFlags (guest s .rax) (~~~d) true) h17
  have hjs : ∀ i, some i ∈ [decode (storeWordFrom dst (hostReg r))] → i.isLinear = true :=
    fun i hi => isLinear_ldstUoffWord (List.mem_singleton.mp hi)
  have hiff := exec_compared_iff htwo hjs hks.isLinear ht hflags
  by_cases heq : guest s .rax = d
  · simp only [if_pos heq] at hiff ⊢
    refine ⟨{ t with mem := s.mem.write dst.memSize.bytes (effectiveAddress inst s dst) (guest s r) },
      (hiff _).mpr ?_, hflags, hv, ?_⟩
    · rw [decode_storeWordFrom _ hfit, runSeq_storeInsn hfit, runSeq_nil, h16, BitVec.sub_add_cancel, hmem,
        readX_guest, hguest]
    · rw [guest_mem, hguest]
  · simp only [if_neg heq] at hiff ⊢
    refine ⟨_, (hiff _).mpr (hks env _ t), ?_, ?_, ?_⟩
    · rw [State.writeX_nzcv, hflags]
    · rw [State.writeX_v, hv]
    · dsimp only
      rw [guest_writeX_hostReg, hguest, h17, hmask, State.writeX_mem, hmem]

/-- A load or store word leaves the flags, whatever it decodes to. -/
theorem nzcv_ldstUoffWord {env : Env} {pc : Nat} {size opc : BitVec 2} {v : BitVec 1} {q : Word} {rn rt : Reg}
    {s s' : State} (henv : ∀ w v, env.simdScalar w v = none)
    (h : runSeq env pc [decode (ldstUoffWord size v opc q rn rt)] s = some s') : s'.nzcv = s.nzcv := by
  rcases decode_ldstUoffWord_cases size opc v q rn rt with hd | hd | hd
  · rw [hd, runSeq_cons, Option.bind_eq_some_iff] at h
    obtain ⟨s₁, hs₁, h⟩ := h
    obtain rfl := Option.some.inj h
    change execLdst _ _ _ _ _ _ _ = some _ at hs₁
    unfold execLdst at hs₁
    split at hs₁
    · split_ifs at hs₁
      obtain rfl := Option.some.inj hs₁
      rfl
    · dsimp only at hs₁
      split_ifs at hs₁ <;> obtain rfl := Option.some.inj hs₁
      · rfl
      · rfl
      · rfl
      · exact State.writeX_nzcv ..
  · rw [hd] at h
    cases h
  · rw [hd, runSeq_cons, Option.bind_eq_some_iff] at h
    obtain ⟨s₁, hs₁, -⟩ := h
    change (env.simdScalar _ _).map _ = _ at hs₁
    rw [henv] at hs₁
    cases hs₁

/-- Zero and one differ at every size. -/
theorem not_accEqual_one {regs : GpReg → BitVec 64} (h : regs .rax = 0) : ¬ AccEqual size 1#64 regs := by
  rw [AccEqual, h]
  cases size <;> decide

/-- When the offset does not fit, the accumulator or the flags are wrong. -/
theorem cmpxchg_mem_fits (hm : dst.isMem = true) (hcode : CompareCode inst dst dst.memSize r ws)
    (h : ExchangeCorrect .cmpxchg inst dst.memSize dst r ws) : Fits dst.memSize.bytes dst.leftover := by
  by_contra hfit
  obtain ⟨s', hexec, hx⟩ := h default (belowOne inst dst) fun _ => offStack_belowOne inst _ dst
  obtain ⟨is, ks, hload, hks, htwo⟩ := hcode
  have hone : memValue inst (belowOne inst dst) dst.memSize dst = 1#64 := memValue_oneAt inst dst _
  have hzero : guest (belowOne inst dst) .rax = 0 := congrFun (guest_belowOne inst dst) .rax
  have hne : ¬ AccEqual dst.memSize 1#64 (guest (belowOne inst dst)) := not_accEqual_one hzero
  have hjs : ∀ i, some i ∈ [decode (storeWordFrom dst (hostReg r))] → i.isLinear = true :=
    fun i hi => isLinear_ldstUoffWord (List.mem_singleton.mp hi)
  have his : ∀ i, some i ∈ is ++ [some (.addSubShift true true 17 0 (hostReg .rax) 31)] →
      i.isLinear = true := by
    intro i hi
    rcases List.mem_append.mp hi with hi | hi
    · exact hload.isLinear i hi
    · obtain rfl := Option.some.inj (List.mem_singleton.mp hi)
      rfl
  obtain ⟨t, ht, -⟩ := (exec_twoArms_iff htwo his hjs hks.isLinear).mp hexec
  have hrun := ht
  rw [runSeq_append, Option.bind_eq_some_iff] at hrun
  obtain ⟨u, hu, hcmp⟩ := hrun
  obtain ⟨hlow, -, hregs⟩ := hload.misloads (fun _ _ => rfl) hfit rfl hu
  rw [runSeq_cmp64, runSeq_nil, Option.some.injEq] at hcmp
  have hflags : t.nzcv = A64.addFlags (u.readX (hostReg .rax)) (~~~u.readX 17) true := by
    rw [← hcmp]
  have harm := (exec_compared_iff htwo hjs hks.isLinear ht hflags s').mp hexec
  split at harm
  · -- the store leaves the flags, and they say that the values are equal
    rename_i heq
    have hjumps := hx.jumps rfl
    rw [nzcv_ldstUoffWord (fun _ _ => rfl) harm, hflags, zeroJumps_iff, oldValue_belowOne hm] at hjumps
    exact hne (hjumps.mp heq)
  · -- the accumulator gets a value without the low bit
    have hafter : (ExchangeOp.cmpxchg.after inst dst.memSize dst r (belowOne inst dst)).regs .rax
        = dst.memSize.into (guest (belowOne inst dst) .rax) 1#64 := by
      rw [after_cmpxchg_mem hm, hone, if_neg hne]
      dsimp only
      rw [Function.update_self]
    have hrax := congrFun hx.regs .rax
    have h17 : t.x 17#5 = u.x 17#5 := by
      rw [← hcmp]
    rw [hks] at harm
    rw [hafter, ← Option.some.inj harm, guest_writeX_hostReg, Function.update_self] at hrax
    refine low_into_one dst.memSize (guest (belowOne inst dst) .rax) ?_
    rw [← hrax, maskVal_setWidth_8, h17, hlow]

/-- Memory that is zero reads as zero. -/
theorem memValue_of_zero {s : State} (h : s.mem = fun _ => 0) : memValue inst s size dst = 0 := by
  apply BitVec.eq_of_getLsbD_eq
  intro i hi
  rw [memValue, ByteMem.getLsbD_read, h]
  simp

/-- The accumulator has a bit above 32 bits, the destination is zero. -/
def bitAbove (inst : Inst) (dst : Operand) : State :=
  let s := (uniform 0 0).writeX (hostReg .rax) 0x100000000#64
  s.writeXsp 31#5 (effectiveAddress inst s dst - 0)

theorem guest_bitAbove : guest (bitAbove inst dst) .rax = 0x100000000#64 := by
  rw [bitAbove, guest_writeXsp_31, guest_writeX_hostReg, Function.update_self]

/-- The comparison is right for 64 bits only. -/
theorem cmpxchg_mem_size (hm : dst.isMem = true) (hcode : CompareCode inst dst dst.memSize r ws)
    (hfit : Fits dst.memSize.bytes dst.leftover) (h : ExchangeCorrect .cmpxchg inst dst.memSize dst r ws) :
    dst.memSize = .b8 := by
  by_contra h8
  have hmem : memValue inst (bitAbove inst dst) dst.memSize dst = 0 :=
    memValue_of_zero (by rw [bitAbove]; simp [uniform])
  obtain ⟨t, hexec, hflags, -⟩ := exec_cmpxchgMem hcode hfit default (bitAbove inst dst)
  have hx := hexec.exists_iff.mp
    (h default (bitAbove inst dst) fun _ => offStack_below inst _ dst _ (by decide))
  have hjumps := hx.jumps rfl
  rw [hflags, zeroJumps_iff, oldValue_isMem hm, hmem, AccEqual, guest_bitAbove] at hjumps
  have hlow : dst.memSize.zeroExtended 0x100000000#64 = dst.memSize.zeroExtended 0 := by
    cases hsize : dst.memSize with
    | b8 => exact absurd hsize h8
    | _ => decide
  exact absurd (hjumps.mpr hlow) (by decide)

/-- **`CMPXCHG` with memory.** -/
theorem cmpxchg_mem_iff (hm : dst.isMem = true) (h0 : inst.operand0 = some dst)
    (h1 : inst.operand1 = some (.reg r dst.memSize)) (hws : compile p (liftCmpxchg inst) = some ws) :
    ExchangeCorrect .cmpxchg inst dst.memSize dst r ws ↔
      Fits dst.memSize.bytes dst.leftover ∧ dst.memSize = .b8 := by
  have hlift : liftCmpxchg inst = cmpxchgMem inst dst r dst.memSize := by
    unfold liftCmpxchg
    rw [h0, h1]
    cases dst <;> first | rfl | cases hm
  rw [hlift] at hws
  have hcode := compareCode_of_compile hws
  constructor
  · intro h
    have hfit := cmpxchg_mem_fits hm hcode h
    exact ⟨hfit, cmpxchg_mem_size hm hcode hfit h⟩
  · -- at 64 bits the comparison of the registers is that of the values
    rintro ⟨hfit, h8⟩ env s _
    obtain ⟨s', hexec, hflags, hv, hstate⟩ := exec_cmpxchgMem hcode hfit env s
    have hiff : guest s .rax = memValue inst s dst.memSize dst ↔
        AccEqual dst.memSize (memValue inst s dst.memSize dst) (guest s) := by
      rw [AccEqual, h8, OpSize.zeroExtended_b8, OpSize.zeroExtended_b8]
    have hafter : (⟨guest s', s'.mem⟩ : GuestState) = ExchangeOp.cmpxchg.after inst dst.memSize dst r s := by
      rw [hstate, after_cmpxchg_mem hm, ← into_memValue (.inl h8)]
      simp only [hiff]
    have hmem := congrArg GuestState.mem hafter
    refine ⟨s', hexec, congrArg GuestState.regs hafter, fun b _ => congrFun hmem b, hv, fun _ => ?_⟩
    rw [hflags, zeroJumps_iff, oldValue_isMem hm]
    exact hiff

end Memory

end Quantum.Jit
