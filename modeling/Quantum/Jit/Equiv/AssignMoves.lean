import Quantum.Jit.Equiv.AssignAlu
import Quantum.Jit.Equiv.GuestStack

/-!
# Moves, extensions and the stack

The instructions that move values: `MOV` and its extensions, `LEA`, `XCHG`, `PUSH`, `POP` and `LEAVE`, and `CMP` and
`TEST`, which move nothing.
-/

namespace Quantum.Jit

open A64
open EmitM

variable {p : Profile} {inst : Inst}

/-! ### Code that changes nothing of the guest -/

/-- The code changes scratch registers and flags only. -/
def KeepsGuest : List (Option Insn) → Prop :=
  Does fun s s' => guestOf s' = guestOf s ∧ hostPointers s' = hostPointers s

namespace KeepsGuest

variable {is js : List (Option Insn)}

theorem append (h₁ : KeepsGuest is) (h₂ : KeepsGuest js) : KeepsGuest (is ++ js) := by
  refine (Does.append h₁ h₂).mono ?_
  rintro s s' ⟨t, ⟨hguest, hctx⟩, hguest', hctx'⟩
  exact ⟨hguest'.trans hguest, hctx'.trans hctx⟩

theorem of_run {f : State → State} (h : ∀ env pc s, runSeq env pc is s = some (f s))
    (hguest : ∀ s, guestOf (f s) = guestOf s) (hctx : ∀ s, hostPointers (f s) = hostPointers s) : KeepsGuest is :=
  fun env pc s => ⟨f s, h env pc s, hguest s, hctx s⟩

theorem of_loadsConst {r : Reg} (hr : IsScratch r) {v : BitVec 64} (h : LoadsConst r v is) : KeepsGuest is := by
  refine of_run h.run (fun s => ?_) fun s => ?_
  · rcases hr with rfl | rfl <;> simp
  · rcases hr with rfl | rfl <;> simp

/-- An instruction that writes the flags only. -/
theorem of_flags {i : Insn} (h : ∀ env pc s, ∃ f, execOne env pc i s = some { s with nzcv := f }) :
    KeepsGuest [some i] := by
  intro env pc s
  obtain ⟨f, hf⟩ := h env pc s
  exact ⟨{ s with nzcv := f }, by rw [runSeq_cons, hf]; rfl, rfl, rfl⟩

theorem cmp64 (ra rb : Reg) : KeepsGuest [some (.addSubShift true true rb 0 ra 31)] :=
  of_flags fun _ _ s => ⟨_, execOne_cmp64 s rb ra⟩

theorem cmp64Imm (r : Reg) (sh : Bool) (i : BitVec 12) : KeepsGuest [some (.addSubImm true true sh i r 31)] :=
  of_flags fun _ _ s => ⟨_, execOne_cmp64Imm s r sh i⟩

theorem ands64 (ra rb : Reg) : KeepsGuest [some (.logicShift .ands rb 0 ra 31)] :=
  of_flags fun _ _ _ => ⟨_, rfl⟩

theorem simulates (h : KeepsGuest is) (hexec : ∀ g, inst.exec g = some g) : Simulates inst is :=
  h.mono fun _ _ hs => ⟨(hexec _).trans (congrArg some hs.1.symm), hs.2⟩

end KeepsGuest

/-- A load of an operand leaves the guest as it is. -/
theorem emits_loadOperand_keeps {op : Operand} {size : OpSize} (hfit : Fits size.bytes op.leftover)
    {Q : BitVec 32 → List (Option Insn) → Prop} (h : ∀ is, KeepsGuest is → Q op.leftover is) :
    Emits p (loadOperand op inst size) Q :=
  emits_loadOperand (.inr hfit) fun is _ hrun =>
    h is (.of_run hrun (fun s => guestOf_loaded s _ _) fun s => hostPointers_loaded s _ _)

/-- A compare with an immediate, through a scratch register or not. -/
theorem emits_cmpImm_keeps {r tmp : Reg} (htmp : IsScratch tmp) (v : BitVec 64) :
    Emits p (if smallImm v then cmp64Imm r (v.setWidth 32)
      else do
        loadConst64 tmp v
        cmp64 r tmp : LiftM Unit) fun _ is => KeepsGuest is := by
  split
  · exact emits_subs64Imm fun sh i _ => .cmp64Imm r sh i
  · exact Emits.bind (emits_loadConst64 htmp.ne_31 v fun is hl =>
      emits_subs64 ((KeepsGuest.of_loadsConst htmp hl).append (.cmp64 r tmp)))

section Flags

variable {oa ob : Operand} (h0 : inst.operand0 = some oa) (h1 : inst.operand1 = some ob)
include h0 h1

theorem keepsGuest_liftCmp (ha : Fits (cmpSize oa ob).bytes oa.leftover)
    (hb : Fits (cmpSize oa ob).bytes ob.leftover) :
    Emits p (liftCmp inst) fun _ is => KeepsGuest is := by
  have hmr : ∀ (m : Operand) (r : GpReg) (size : OpSize), Fits size.bytes m.leftover →
      Emits p (cmpMemReg inst m r size) fun _ is => KeepsGuest is := fun m r size hfit =>
    Emits.bind (emits_loadOperand_keeps hfit fun is hl => emits_subs64 (hl.append (.cmp64 _ _)))
  have hrm : ∀ (m : Operand) (r : GpReg) (size : OpSize), Fits size.bytes m.leftover →
      Emits p (cmpRegMem inst r size m) fun _ is => KeepsGuest is := fun m r size hfit =>
    Emits.bind (emits_loadOperand_keeps hfit fun is hl => emits_subs64 (hl.append (.cmp64 _ _)))
  have hmi : ∀ (m : Operand) (v : BitVec 64), Fits m.memSize.bytes m.leftover →
      Emits p (cmpMemImm inst m v) fun _ is => KeepsGuest is := fun m v hfit =>
    Emits.bind (emits_loadOperand_keeps hfit fun is hl =>
      (emits_cmpImm_keeps (.inl rfl) v).mono fun _ js hc => hl.append hc)
  unfold liftCmp
  rw [h0, h1]
  refine Emits.bind (Emits.pure (Emits.bind (Emits.pure ?_)))
  simp only [List.nil_append]
  cases oa with
  | reg ra size =>
    cases ob with
    | reg rb sz =>
      cases size with
      | b4 | b8 => exact emits_subs64 (.cmp64 _ _)
      | _ => exact Emits.fail
    | imm v sz =>
      cases size with
      | b4 | b8 => exact emits_cmpImm_keeps (.inr rfl) v
      | _ => exact Emits.fail
    | mem m => cases size <;> exact hrm _ ra _ hb
    | ripRel d s => cases size <;> exact hrm _ ra _ hb
    | xmmReg n sz => cases size <;> exact Emits.fail
  | mem m =>
    cases ob with
    | reg rb sz => exact hmr _ rb sz ha
    | imm v sz => exact hmi _ v ha
    | _ => exact Emits.fail
  | ripRel d s =>
    cases ob with
    | reg rb sz => exact hmr _ rb sz ha
    | imm v sz => exact hmi _ v ha
    | _ => exact Emits.fail
  | _ => exact Emits.fail

theorem keepsGuest_liftTest (ha : Fits oa.memSize.bytes oa.leftover) (hb : Fits ob.memSize.bytes ob.leftover) :
    Emits p (liftTest inst) fun _ is => KeepsGuest is := by
  have hmr : ∀ (m : Operand) (r : GpReg) (first : Bool), Fits m.memSize.bytes m.leftover →
      Emits p (testMemReg inst m r first) fun _ is => KeepsGuest is := by
    intro m r first hfit
    refine Emits.bind (emits_loadOperand_keeps hfit fun is hl => ?_)
    cases first <;> exact emits_ands64 (hl.append (.ands64 _ _))
  have hmi : ∀ (m : Operand) (v : BitVec 64), Fits m.memSize.bytes m.leftover →
      Emits p (testMemImm inst m v) fun _ is => KeepsGuest is := fun m v hfit =>
    Emits.bind (emits_loadOperand_keeps hfit fun is hl => Emits.bind (emits_loadConst64 (by decide) v
      fun is₁ hc => emits_ands64 (hl.append ((KeepsGuest.of_loadsConst (.inl rfl) hc).append (.ands64 _ _)))))
  unfold liftTest
  rw [h0, h1]
  refine Emits.bind (Emits.pure (Emits.bind (Emits.pure ?_)))
  simp only [List.nil_append]
  cases oa with
  | reg ra size =>
    cases ob with
    | reg rb sz => exact emits_ands64 (.ands64 _ _)
    | imm v sz =>
      exact Emits.bind (emits_loadConst64 (by decide) v fun is hc =>
        emits_ands64 ((KeepsGuest.of_loadsConst (.inl rfl) hc).append (.ands64 _ _)))
    | mem m => exact hmr _ ra false hb
    | ripRel d s => exact hmr _ ra false hb
    | _ => exact Emits.fail
  | mem m =>
    cases ob with
    | reg rb sz => exact hmr _ rb true ha
    | imm v sz => exact hmi _ v ha
    | _ => exact Emits.fail
  | ripRel d s =>
    cases ob with
    | reg rb sz => exact hmr _ rb true ha
    | imm v sz => exact hmi _ v ha
    | _ => exact Emits.fail
  | _ => exact Emits.fail

end Flags

/-! ### `MOV` -/

/-- Two moves of 16 bits load 32 bits. -/
theorem lowLanes_two (v : BitVec 64) : lowLanes 2 v = OpSize.b4.zeroExtended v := rfl

theorem setWidth_lowLanes {k : Nat} (hk : k ≤ 2) (v : BitVec 64) :
    ((lowLanes k v).setWidth 32).setWidth 64 = lowLanes k v := by
  refine BitVec.eq_of_getLsbD_eq fun i hi => ?_
  rw [BitVec.getLsbD_setWidth, BitVec.getLsbD_setWidth, getLsbD_lowLanes]
  by_cases hlow : i < 16 * k
  · simp [hi, hlow, show i < 32 by omega]
  · simp [hlow]

theorem sets_movWide32 {op : MovOp} {hw : BitVec 2} {imm : BitVec 16} {rd : Reg} (hrd : rd ≠ 31#5) :
    Sets rd (fun s => ((execMovWide op hw.toNat imm (s.x rd)).setWidth 32).setWidth 64)
      [some (.movWide false op hw imm rd)] := by
  intro env pc s
  show some (s.writeX rd (((execMovWide op hw.toNat imm (s.readX rd)).setWidth 32).setWidth 64)) = _
  rw [s.readX_of_ne _ hrd]

theorem emits_movRegImm_b4 (r : GpReg) (v : BitVec 64) :
    Emits p (movRegImm r .b4 v) fun _ is => Sets (hostReg r) (fun _ => OpSize.b4.zeroExtended v) is := by
  have hrd := hostReg_ne_31 r
  have hlow : v.setWidth 16 = v.extractLsb' (16 * 0) 16 := by
    refine BitVec.eq_of_getLsbD_eq fun i hi => ?_
    rw [BitVec.getLsbD_setWidth, BitVec.getLsbD_extractLsb', Nat.mul_zero, Nat.zero_add]
  have hmovz : Sets (hostReg r) (fun _ => lowLanes 1 v)
      [some (.movWide false .movz 0 (v.setWidth 16) (hostReg r))] := by
    intro env pc s
    rw [sets_movWide32 hrd, hlow]
    dsimp only
    rw [show (0 : BitVec 2).toNat = 0 from rfl, movz_lowLanes 0 v _ (lowLanes_zero v), setWidth_lowLanes (by decide)]
  refine Emits.bind (emits_movz32 ?_)
  split
  · refine emits_movk32 ?_
    intro env pc s
    rw [runSeq_append, hmovz, Option.bind_some, sets_movWide32 hrd, writeX_writeX_self]
    dsimp only
    rw [State.x_writeX, if_pos ⟨rfl, hrd⟩, show (1 : BitVec 2).toNat = 1 from rfl, movk_lowLanes 1 v,
      setWidth_lowLanes (Nat.le_refl 2), lowLanes_two]
  · rename_i hzero
    refine Emits.pure ?_
    rw [List.append_nil, ← lowLanes_two, lowLanes_succ_of_zero 1 v (not_not.mp hzero)]
    exact hmovz

theorem assigns_movRegImm {r : GpReg} {size : OpSize} (hsize : size.IsWide) (v : BitVec 64) :
    Emits p (movRegImm r size v) fun _ is => Assigns inst (.reg r size) (fun _ => v) is := by
  rcases hsize with rfl | rfl
  · exact (emits_movRegImm_b4 r v).mono fun _ is h => h.assigns fun _ => rfl
  · refine emits_loadConst64 (hostReg_ne_31 r) v fun is hl => ?_
    have hsets : Sets (hostReg r) (fun _ => v) is := hl.run
    exact hsets.assigns fun _ => rfl

theorem assigns_movRegReg {r rs : GpReg} {size : OpSize} (hsize : size.IsWide) :
    Emits p (movRegReg r size rs) fun _ is => Assigns inst (.reg r size) (fun s => guest s rs) is := by
  rcases hsize with rfl | rfl
  · refine emits_emitAndImmLo32 ?_
    have hsets : Sets (hostReg r) (fun s => guest s rs &&& 0xFFFFFFFF#64)
        [some (.andImm 31 (hostReg rs) (hostReg r))] := by
      intro env pc s
      rw [runSeq_cons, execOne_andImmLo32 s _ (hostReg_ne_31 r), readX_hostReg]
      rfl
    exact hsets.assigns fun s => maskVal_b4 _
  · refine emits_mov64 ?_
    have hsets : Sets (hostReg r) (fun s => guest s rs) [some (.logicShift .orr (hostReg rs) 0 31 (hostReg r))] := by
      intro env pc s
      rw [runSeq_mov64, readX_hostReg]
      rfl
    exact hsets.assigns fun _ => rfl

/-- Code that leaves the address in `X16`. -/
theorem AddrCode.does {op : Operand} {is : List (Option Insn)} (h : AddrCode inst op is) :
    Does (fun s s' => s'.x 16#5 = effectiveAddress inst s op - op.leftover.setWidth 64 ∧
      guestOf s' = guestOf s ∧ hostPointers s' = hostPointers s) is := by
  intro env pc s
  obtain ⟨t, ht⟩ := h env pc s
  exact ⟨_, ht, by simp⟩

theorem regs_of_guestOf {s s' : State} (h : guestOf s' = guestOf s) (r : GpReg) : s'.x (hostReg r) = guest s r :=
  congrFun (congrArg GuestMachine.regs h) r

/-- A load into a register. -/
theorem assigns_load {r : GpReg} (src : Operand) (hwide : src.memSize.IsWide)
    (hfit : Fits src.memSize.bytes src.leftover) :
    Emits p (do
      let leftover ← addrIntoXtmp src inst 16
      loadSized (hostReg r) 16 leftover src.memSize : LiftM Unit) fun _ is =>
        Assigns inst (.reg r src.memSize) (fun s => memValue inst s src.memSize src) is := by
  refine Emits.bind (emits_addrIntoXtmp fun is ha => emits_loadSized (.inr hfit) fun _ => ?_)
  intro env pc s
  obtain ⟨t, hrun, haddr, hguest, hctx⟩ := ha.does env pc s
  refine ⟨_, by rw [runSeq_append, hrun, Option.bind_some, runSeq_loadInsn hfit, runSeq_nil], ?_, ?_⟩
  · have hmem : t.mem = s.mem := congrArg GuestMachine.mem hguest
    have hsum : t.x 16 + src.leftover.setWidth 64 = effectiveAddress inst s src := by
      rw [show t.x 16 = _ from haddr, BitVec.sub_add_cancel]
    rw [guestOf_writeX_hostReg, hguest, hsum, hmem]
    exact congrArg ((guestOf s).setReg r) (into_memValue hwide.symm (guest s r) s)
  · exact (hostPointers_writeX_hostReg t r _).trans hctx

/-- A store of a register. -/
theorem assigns_storeReg {rs : GpReg} (dst : Operand) (hmem : dst.isMem = true)
    (hfit : Fits dst.memSize.bytes dst.leftover) :
    Emits p (do
      let leftover ← addrIntoXtmp dst inst 16
      storeSized (hostReg rs) 16 leftover dst.memSize : LiftM Unit) fun _ is =>
        Assigns inst dst (fun s => guest s rs) is := by
  refine Emits.bind (emits_addrIntoXtmp fun is ha => emits_storeSized (.inr hfit) fun _ => ?_)
  refine assigns_store (hostReg_ne_31 rs) hmem hfit (ha.does.mono ?_)
  rintro s s' ⟨haddr, hguest, hctx⟩
  exact ⟨haddr, regs_of_guestOf hguest rs, hguest, hctx⟩

/-- A store of a constant, through `X17`. -/
theorem assigns_storeImm {v : BitVec 64} (dst : Operand) (hmem : dst.isMem = true)
    (hfit : Fits dst.memSize.bytes dst.leftover) :
    Emits p (do
      let leftover ← addrIntoXtmp dst inst 16
      loadConst64 17 v
      storeSized 17 16 leftover dst.memSize : LiftM Unit) fun _ is => Assigns inst dst (fun _ => v) is := by
  refine Emits.bind (emits_addrIntoXtmp fun is ha => Emits.bind (emits_loadConst64 (by decide) v fun js hl =>
    emits_storeSized (.inr hfit) fun _ => ?_))
  have hset : Sets 17#5 (fun _ => v) js := hl.run
  have hcode : Does (fun s s' => s'.x 16#5 = effectiveAddress inst s dst - dst.leftover.setWidth 64 ∧
      s'.x 17#5 = v ∧ guestOf s' = guestOf s ∧ hostPointers s' = hostPointers s) (is ++ js) := by
    refine (ha.does.append hset.does).mono ?_
    rintro s _ ⟨t, ⟨haddr, hguest, hctx⟩, rfl⟩
    simp [haddr, hguest, hctx]
  have hstore := assigns_store (by decide) hmem hfit hcode
  rw [List.append_assoc] at hstore
  exact hstore

section Mov

variable {oa ob : Operand} (h0 : inst.operand0 = some oa) (h1 : inst.operand1 = some ob)
include h0 h1

theorem assigns_liftMov (hdst : oa.IsDest) (hsrc : ob.IsSource) (hsame : SameSize oa ob) :
    Emits p (liftMov inst) fun _ is => Assigns inst oa (fun s => hostValue inst s ob) is := by
  unfold liftMov
  rw [h0, h1]
  refine Emits.bind (Emits.pure (Emits.bind (Emits.pure ?_)))
  simp only [List.nil_append]
  cases oa with
  | reg rd size =>
    cases ob with
    | reg rs sz => exact assigns_movRegReg hdst
    | imm v sz => exact assigns_movRegImm hdst v
    | mem m =>
      obtain rfl : m.size = size := hsame
      exact assigns_load (.mem m) hdst hsrc
    | ripRel d sz =>
      obtain rfl : sz = size := hsame
      exact assigns_load (.ripRel d sz) hdst (fits_zero sz)
    | xmmReg n sz => exact Emits.fail
  | mem m =>
    cases ob with
    | reg rs sz =>
      obtain rfl : sz = m.size := hsame
      exact assigns_storeReg (.mem m) rfl hdst
    | imm v sz => exact assigns_storeImm (.mem m) rfl hdst
    | _ => exact Emits.fail
  | ripRel d size =>
    cases ob with
    | reg rs sz =>
      obtain rfl : sz = size := hsame
      exact assigns_storeReg (.ripRel d sz) rfl (fits_zero sz)
    | imm v sz => exact assigns_storeImm (.ripRel d size) rfl (fits_zero size)
    | _ => exact Emits.fail
  | _ => exact Emits.fail

end Mov

/-! ### Extensions and addresses -/

/-- What the code computes is what the destination gets. -/
theorem codeResult_eq_into {kind : ExtendKind} {dsize : OpSize} {src : Operand}
    (hsize : kind ≠ .movsxd → src.memSize = .b1 ∨ src.memSize = .b2) (hok : ExtendOk kind dsize src)
    (old v : BitVec 64) :
    kind.codeResult src.memSize v = dsize.into old (kind.result src.memSize v) := by
  obtain ⟨hdst, -⟩ := hok
  cases kind with
  | movzx =>
    have hext := zeroExtended_b4_zeroExtended (hsize (by decide)) v
    exact (OpSize.into_eq_self (hdst.symm.imp id fun h => ⟨h, hext⟩)).symm
  | movsx =>
    obtain rfl : dsize = .b8 := hdst
    rfl
  | movsxd =>
    obtain ⟨rfl, hsrc⟩ := hdst
    rw [hsrc]
    rfl

theorem assigns_lift_extend {legacy32 : Bool} {kind : ExtendKind} (hkind : inst.extendKind = some kind)
    {rd : GpReg} {dsize : OpSize} {src : Operand} (h0 : inst.operand0 = some (.reg rd dsize))
    (h1 : inst.operand1 = some src) (hok : ExtendOk kind dsize src) :
    Emits p (lift legacy32 inst) fun _ is => Assigns inst (.reg rd dsize)
      (fun s => kind.result src.memSize (hostValue inst s src)) is := by
  refine (emits_lift_extend hkind).mono ?_
  rintro - is ⟨rd', dsize', src', h0', h1', hsize, hform⟩
  obtain ⟨rfl, rfl⟩ := Operand.reg.inj (Option.some.inj (h0.symm.trans h0'))
  obtain rfl := Option.some.inj (h1.symm.trans h1')
  rcases hform with ⟨rs, size, rfl, hs⟩ | ⟨hne, hmem, is₁, is₂, haddr, hs, rfl⟩
  · exact hs.assigns fun s => codeResult_eq_into hsize hok _ _
  -- a load, and the extension in the destination
  intro env pc s
  obtain ⟨t, hrun, hx16, hguest, hctx⟩ := haddr.1.does env pc s
  have hsum : t.x 16 + src.leftover.setWidth 64 = effectiveAddress inst s src := by
    rw [show t.x 16 = _ from hx16, BitVec.sub_add_cancel]
  have hmemory : t.mem = s.mem := congrArg GuestMachine.mem hguest
  have hafter : kind.afterLoad src.memSize (memValue inst s src.memSize src)
      = kind.codeResult src.memSize (hostValue inst s src) := by
    rw [hostValue_of_isMem hmem]
    cases kind with
    | movzx => exact (OpSize.zeroExtended_read _ _ _).symm
    | movsx => rfl
    | movsxd => exact absurd rfl hne
  refine ⟨_, by rw [runSeq_append, hrun, Option.bind_some, decode_loadWordInto _ hok.2, runSeq_loadInsn hok.2, hs,
    writeX_writeX_self], ?_, ?_⟩
  · dsimp only
    rw [guestOf_writeX_hostReg, hguest, State.x_writeX, if_pos ⟨rfl, hostReg_ne_31 rd⟩, hsum, hmemory]
    refine congrArg ((guestOf s).setReg rd) (Eq.trans hafter ?_)
    exact codeResult_eq_into hsize hok _ _
  · exact (hostPointers_writeX_hostReg t rd _).trans hctx

theorem assigns_liftLea {rd : GpReg} {size : OpSize} {src : Operand} (h0 : inst.operand0 = some (.reg rd size))
    (h1 : inst.operand1 = some src) (hsize : size.IsWide) (hmem : src.isMem = true) (hok : LeaOk rd src) :
    Emits p (liftLea inst) fun _ is =>
      Assigns inst (.reg rd size) (fun s => leaAddress inst (guest s) src) is := by
  refine (emits_liftLea h0 h1 hmem).mono fun _ is h => h.assigns fun s => ?_
  rw [leaValue_eq hok, maskVal_eq_into hsize]

theorem assigns_liftCqo :
    Emits p liftCqo fun _ is =>
      Assigns inst (.reg .rdx .b8) (fun s => OpSize.b8.signFill (guest s .rax)) is :=
  emits_liftCqo.mono fun _ _ h => Sets.assigns (r := .rdx) h fun _ => rfl

/-! ### Exchange -/

theorem setReg_self (g : GuestMachine) (r : GpReg) : g.setReg r (g.regs r) = g := by
  rw [GuestMachine.setReg, Function.update_eq_self]

/-- The code exchanges a register and an operand. -/
def Exchanges (inst : Inst) (r : GpReg) (size : OpSize) (op : Operand) : List (Option Insn) → Prop :=
  Does fun s s' => guestOf s' = (guestOf s).exchange inst r size op ∧ hostPointers s' = hostPointers s

/-- Two whole registers. -/
theorem exchange_b8 (g : GuestMachine) (a b : GpReg) :
    g.exchange inst a .b8 (.reg b .b8) = (g.setReg b (g.regs a)).setReg a (g.regs b) := by
  simp only [GuestMachine.exchange, GuestMachine.assign, GuestMachine.value, OpSize.zeroExtended_b8]
  rfl

theorem guestOf_mem (s : State) (m : ByteMem) : guestOf { s with mem := m } = { guestOf s with mem := m } := rfl

theorem value_of_isMem {m : Operand} (hm : m.isMem = true) (s : State) :
    (guestOf s).value inst m = memValue inst s m.memSize m := by
  cases m <;> first | rfl | cases hm

/-- A loaded operand, in `X17`. -/
theorem Loads.does {m : Operand} {is : List (Option Insn)} (h : Loads inst m is) :
    Does (fun s s' => s'.x 16#5 = effectiveAddress inst s m - m.leftover.setWidth 64 ∧
      s'.x 17#5 = memValue inst s m.memSize m ∧ guestOf s' = guestOf s ∧ hostPointers s' = hostPointers s) is :=
  fun env pc s => ⟨_, h env pc s, by simp⟩

theorem exchanges_mem {r : GpReg} {m : Operand} (hmem : m.isMem = true) (hwide : m.memSize.IsWide)
    (hfit : Fits m.memSize.bytes m.leftover) :
    Emits p (xchgMem inst r m) fun _ is => Exchanges inst r m.memSize m is := by
  refine Emits.bind (emits_loadOperand_memSize (.inr hfit) fun is _ hl => Emits.bind
    (emits_storeSized (.inr hfit) fun _ => emits_mov64 ?_))
  intro env pc s
  obtain ⟨t, hrun, h16, h17, hguest, hctx⟩ := hl.does env pc s
  refine ⟨_, by rw [runSeq_append, hrun, Option.bind_some, List.cons_append, runSeq_storeInsn hfit, List.nil_append,
    runSeq_mov64, runSeq_nil], ?_, ?_⟩
  · have hsum : t.x 16 + m.leftover.setWidth 64 = effectiveAddress inst s m := by
      rw [show t.x 16 = _ from h16, BitVec.sub_add_cancel]
    have hstored : m.memSize.zeroExtended (guest s r)
        = m.memSize.zeroExtended ((guestOf s).value inst (.reg r m.memSize)) :=
      (OpSize.zeroExtended_idem _ _).symm
    have hloaded : ∀ mem : ByteMem, ({ t with mem } : State).readX 17 = memValue inst s m.memSize m :=
      fun _ => (t.readX_of_ne _ (by decide)).trans h17
    have hreg : t.readX (hostReg r) = guest s r := (readX_hostReg t r).trans (regs_of_guestOf hguest r)
    have hmemory : t.mem = s.mem := congrArg GuestMachine.mem hguest
    rw [guestOf_writeX_hostReg, hloaded, guestOf_mem, hguest, hsum, hreg, hmemory, GuestMachine.exchange,
      ← (guestOf s).assign_congr hstored, assign_of_isMem hmem, value_of_isMem hmem, address_guestOf]
    exact congrArg (GuestMachine.setReg _ r) (into_memValue hwide.symm (guest s r) s)
  · rw [hostPointers_writeX_hostReg]
    exact hctx

/-- Three moves through `X16`, or nothing. -/
theorem exchanges_regs (a b : GpReg) :
    Emits p (if a = b then pure ()
      else do
        mov64 16 (hostReg a)
        mov64 (hostReg a) (hostReg b)
        mov64 (hostReg b) 16 : LiftM Unit) fun _ is => Exchanges inst a .b8 (.reg b .b8) is := by
  split
  · rename_i hab
    subst hab
    refine Emits.pure fun env pc s => ⟨s, rfl, ?_, rfl⟩
    rw [exchange_b8, setReg_self]
    exact (setReg_self (guestOf s) a).symm
  · rename_i hab
    refine Emits.bind (emits_mov64 (Emits.bind (emits_mov64 (emits_mov64 ?_))))
    have h₁ : Sets 16#5 (fun s => guest s a) [some (.logicShift .orr (hostReg a) 0 31 16)] :=
      fun env pc s => by rw [runSeq_mov64, readX_hostReg]; rfl
    have h₂ : Sets (hostReg a) (fun s => guest s b) [some (.logicShift .orr (hostReg b) 0 31 (hostReg a))] :=
      fun env pc s => by rw [runSeq_mov64, readX_hostReg]; rfl
    have h₃ : Sets (hostReg b) (fun s => s.x 16#5) [some (.logicShift .orr 16 0 31 (hostReg b))] :=
      fun env pc s => by rw [runSeq_mov64, s.readX_of_ne _ (by decide)]; rfl
    refine (h₁.does.append (h₂.does.append h₃.does)).mono ?_
    rintro s s' ⟨t, rfl, t', rfl, rfl⟩
    refine ⟨?_, by rw [hostPointers_writeX_hostReg, hostPointers_writeX_hostReg, hostPointers_writeX_16]⟩
    rw [guestOf_writeX_hostReg, guestOf_writeX_hostReg, guestOf_writeX_16, guest_writeX_16, exchange_b8]
    have hkept : ((s.writeX 16#5 (guest s a)).writeX (hostReg a) (guest s b)).x 16#5 = guest s a := by
      rw [State.x_writeX, if_neg fun h => hostReg_ne_16 a h.1.symm]
      simp
    rw [hkept]
    simp only [GuestMachine.setReg]
    rw [Function.update_comm hab]
    rfl

section Xchg

variable {r : GpReg} {size : OpSize} {oa ob m : Operand} (h0 : inst.operand0 = some oa)
  (h1 : inst.operand1 = some ob)
include h0 h1

/-- An exchange with a memory operand, in either order. -/
theorem exchanges_liftXchg_mem (hops : oa = .reg r m.memSize ∧ ob = m ∨ oa = m ∧ ob = .reg r m.memSize)
    (hmem : m.isMem = true) (hwide : m.memSize.IsWide) (hfit : Fits m.memSize.bytes m.leftover) :
    Emits p (liftXchg inst) fun _ is => Exchanges inst r m.memSize m is := by
  have hexch : Emits p (xchgMem inst r m) fun _ is => Exchanges inst r m.memSize m is :=
    exchanges_mem hmem hwide hfit
  unfold liftXchg
  rw [h0, h1]
  refine Emits.bind (Emits.pure (Emits.bind (Emits.pure ?_)))
  simp only [List.nil_append]
  rcases hops with ⟨rfl, rfl⟩ | ⟨rfl, rfl⟩
  · cases ob with
    | mem | ripRel => exact hexch
    | _ => cases hmem
  · cases oa with
    | mem | ripRel => exact hexch
    | _ => cases hmem

theorem exchanges_liftXchg_regs {a b : GpReg} (ha : oa = .reg a .b8) (hb : ob = .reg b .b8) :
    Emits p (liftXchg inst) fun _ is => Exchanges inst a .b8 (.reg b .b8) is := by
  subst ha hb
  unfold liftXchg
  rw [h0, h1]
  exact Emits.bind (Emits.pure (Emits.bind (Emits.pure (exchanges_regs a b))))

end Xchg

/-! ### The stack -/

theorem writeXsp_19 (s : State) (v : BitVec 64) : s.writeXsp 19#5 v = s.writeX (hostReg .rsp) v := by
  rw [show hostReg .rsp = 19#5 from rfl, s.writeX_of_ne _ _ (by decide)]
  rfl

/-- The stack pointer has moved; now a store of the value that is in `rt`. -/
theorem guestOf_pushed {s t : State} {rt : Reg} {v : BitVec 64}
    (hguest : guestOf t = (guestOf s).setReg .rsp (guest s .rsp - 8#64)) (hval : t.readX rt = v) :
    guestOf { t with mem := t.mem.write 8 (guest t .rsp) (t.readX rt) } = (guestOf s).push v := by
  have hsp : guest t .rsp = guest s .rsp - 8#64 := by
    have hregs := congrFun (congrArg GuestMachine.regs hguest) .rsp
    rwa [GuestMachine.regs_setReg, if_pos rfl] at hregs
  have hmem : t.mem = s.mem := congrArg GuestMachine.mem hguest
  have hmemory : guestOf { t with mem := t.mem.write 8 (guest t .rsp) (t.readX rt) }
      = { guestOf t with mem := t.mem.write 8 (guest t .rsp) (t.readX rt) } := guestOf_mem t _
  rw [hmemory, hguest, hsp, hval, hmem]
  rfl

/-- The code pushes a value. -/
theorem simulates_liftPush {src : Operand} (hop : inst.op = .push) (h0 : inst.operand0 = some src)
    (hsrc : (∃ r, src = .reg r .b8 ∧ r ≠ .rsp) ∨ ∃ v size, src = .imm v size) :
    Emits p (liftPush inst) fun _ is => Simulates inst is := by
  have hpush : ∀ (s t : State) (rt : Reg), guestOf t = (guestOf s).setReg .rsp (guest s .rsp - 8#64) →
      t.readX rt = (guestOf s).value inst src → inst.exec (guestOf s)
        = some (guestOf { t with mem := t.mem.write 8 (guest t .rsp) (t.readX rt) }) := by
    intro s t rt hguest hval
    rw [guestOf_pushed hguest hval, exec_push _ hop h0]
  unfold liftPush
  rw [h0]
  refine Emits.bind (Emits.pure (Emits.bind (emits_sub64Imm fun sh i hv => ?_)))
  rcases hsrc with ⟨r, rfl, hr⟩ | ⟨v, size, rfl⟩
  · refine emits_str64 (fits_zero .b8) ?_
    refine ((does_sub64Imm hv).append (does_str64 (hostReg r))).mono ?_
    rintro s s' ⟨t, rfl, rfl⟩
    rw [writeXsp_19]
    have hctx := hostPointers_writeX_hostReg s .rsp (guest s .rsp - 8#64)
    refine ⟨hpush s _ (hostReg r) (guestOf_writeX_hostReg s .rsp _) ?_, hctx⟩
    rw [readX_hostReg, State.x_writeX, if_neg fun h => hr (hostReg_injective h.1)]
    exact (OpSize.zeroExtended_b8 _).symm
  · refine Emits.bind (emits_loadConst64 (by decide) _ fun is hl => emits_str64 (fits_zero .b8) ?_)
    have hset : Sets 16#5 (fun _ => v) is := hl.run
    refine ((does_sub64Imm hv).append (hset.does.append (does_str64 16))).mono ?_
    rintro s s' ⟨t, rfl, t', rfl, rfl⟩
    rw [writeXsp_19]
    have hctx := (hostPointers_writeX_16 _ v).trans (hostPointers_writeX_hostReg s .rsp (guest s .rsp - 8#64))
    refine ⟨hpush s _ 16#5 ?_ ?_, hctx⟩
    · rw [guestOf_writeX_16, guestOf_writeX_hostReg]
    · rw [State.readX_of_ne _ _ (by decide)]
      simp [GuestMachine.value]

/-- The load of the top word and the move of the stack pointer. -/
theorem does_pop {rd : GpReg} (hrd : rd ≠ .rsp) {sh : Bool} {i : BitVec 12}
    (hv : immValue sh i = (8#32).setWidth 64) :
    Does (fun s s' => guestOf s' = (guestOf s).pop.2.setReg rd (guestOf s).pop.1 ∧ hostPointers s' = hostPointers s)
      ([some (loadInsn .b8 (hostReg rd) 19 0)] ++ [some (.addSubImm false false sh i 19 19)]) := by
  refine ((does_ldr64 rd).append (does_add64Imm hv)).mono ?_
  rintro s s' ⟨t, rfl, rfl⟩
  rw [writeXsp_19]
  refine ⟨?_, (hostPointers_writeX_hostReg _ .rsp _).trans (hostPointers_writeX_hostReg s rd _)⟩
  have hsp : guest (s.writeX (hostReg rd) (s.mem.read 64 8 (guest s .rsp))) .rsp = guest s .rsp := by
    rw [guest_writeX_hostReg, Function.update_of_ne hrd.symm]
  rw [guestOf_writeX_hostReg, guestOf_writeX_hostReg, hsp]
  simp only [GuestMachine.pop, GuestMachine.setReg]
  rw [Function.update_comm hrd]
  rfl

theorem simulates_liftPop {rd : GpReg} {size : OpSize} (hop : inst.op = .pop)
    (h0 : inst.operand0 = some (.reg rd size)) (hrd : rd ≠ .rsp) :
    Emits p (liftPop inst) fun _ is => Simulates inst is := by
  unfold liftPop
  rw [h0]
  refine Emits.bind (Emits.pure (Emits.bind (emits_ldr64 (fits_zero .b8) (emits_add64Imm fun sh i hv => ?_))))
  refine (does_pop hrd hv).mono fun s s' h => ⟨?_, h.2⟩
  rw [exec_pop _ hop h0, h.1]

theorem simulates_liftLeave (hop : inst.op = .leave) : Emits p liftLeave fun _ is => Simulates inst is := by
  unfold liftLeave
  refine Emits.bind (emits_mov64 (Emits.bind (emits_ldr64 (fits_zero .b8)
    (emits_add64Imm fun sh i hv => ?_))))
  have hmov : Does (fun s s' => s' = s.writeX (hostReg .rsp) (guest s .rbp))
      [some (.logicShift .orr (hostReg .rbp) 0 31 19)] := by
    intro env pc s
    rw [runSeq_mov64, runSeq_nil, readX_hostReg]
    exact ⟨_, rfl, rfl⟩
  refine (hmov.append (does_pop (by decide) hv)).mono ?_
  rintro s s' ⟨t, rfl, hguest, hctx⟩
  refine ⟨?_, hctx.trans (hostPointers_writeX_hostReg s .rsp _)⟩
  rw [guestOf_writeX_hostReg] at hguest
  rw [exec_leave _ hop, hguest]
  rfl

end Quantum.Jit
