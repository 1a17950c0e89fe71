import Quantum.Jit.Equiv.Simulation

/-!
# Arithmetic and logic assign their results

The forms of `Alu` again, with the memory that they write.  What the host combines are whole registers; at the size
of the destination the result is that of the operands' values.
-/

namespace Quantum.Jit

open A64
open EmitM

variable {p : Profile}

/-! ### A result in `X17` -/

section Write

variable (alu : Alu) (size : OpSize) (a b : BitVec 64) (s : State)

@[simp]
theorem guestOf_write_17 : guestOf (alu.write size 17#5 a b s) = guestOf s := by
  rw [Alu.write, guestOf_nzcv, guestOf_writeX_17]

@[simp]
theorem x_write_17 (q : Reg) :
    (alu.write size 17#5 a b s).x q = if q = 17#5 then maskVal size (alu.result s.nzcv a b) else s.x q := by
  show (s.writeX 17#5 _).x q = _
  simp

@[simp]
theorem hostPointers_write_17 : hostPointers (alu.write size 17#5 a b s) = hostPointers s := by
  rw [Alu.write, hostPointers_nzcv, hostPointers_writeX_17]

end Write

/-! ### Operand forms -/

/-- The code combines the host values of `oa` and `ob` and assigns the result to `oa`. -/
def Computes (inst : Inst) (alu : Alu) (oa ob : Operand) : List (Option Insn) → Prop :=
  Assigns inst oa fun s => alu.result s.nzcv (hostValue inst s oa) (hostValue inst s ob)

section Forms

variable {inst : Inst} {alu : Alu} {is : List (Option Insn)}

theorem computes_regReg {rd rs : GpReg} {size sz : OpSize} (hsize : size.IsWide)
    (h : Combines alu size (hostReg rd) (hostReg rd) (hostReg rs) is) :
    Computes inst alu (.reg rd size) (.reg rs sz) is :=
  h.assigns hsize

theorem computes_regImm {rd : GpReg} {r : Reg} (hr : IsScratch r) {size sz : OpSize} {v : BitVec 64}
    (hsize : size.IsWide) {js : List (Option Insn)} (hc : LoadsConst r v is)
    (h : Combines alu size (hostReg rd) (hostReg rd) r js) :
    Computes inst alu (.reg rd size) (.imm v sz) (is ++ js) := by
  have hg : ∀ s : State, guestOf (s.writeX r v) = guestOf s := by
    intro s
    rcases hr with rfl | rfl <;> simp
  have hptr : ∀ s : State, hostPointers (s.writeX r v) = hostPointers s := by
    intro s
    rcases hr with rfl | rfl <;> simp
  refine ((h.assigns hsize).after hc.run hg hptr).congr fun s => ?_
  have hx : (s.writeX r v).x (hostReg rd) = guest s rd := congrFun (congrArg GuestMachine.regs (hg s)) rd
  rw [hx, State.writeX_nzcv, State.x_writeX, if_pos ⟨rfl, hr.ne_31⟩]
  rfl

/-- A loaded operand leaves the guest as it is. -/
theorem guestOf_loaded (s : State) (a v : BitVec 64) :
    guestOf ((s.writeX 16#5 a).writeX 17#5 v) = guestOf s := by
  simp

theorem hostPointers_loaded (s : State) (a v : BitVec 64) :
    hostPointers ((s.writeX 16#5 a).writeX 17#5 v) = hostPointers s := by
  simp

theorem computes_regMem {emit : Reg → LiftM Unit} {rd : GpReg} {size : OpSize} {m : Operand}
    (hsize : size.IsWide) (hm : m.isMem = true) (hok : AccessOk p m m.memSize)
    (h : Emits p (emit 17#5) fun _ is => Combines alu size (hostReg rd) (hostReg rd) 17#5 is) :
    Emits p (regMemOp inst m emit) fun _ is => Computes inst alu (.reg rd size) m is := by
  refine Emits.bind (emits_loadOperand_memSize hok fun is _ hl => h.mono fun _ js hc => ?_)
  refine ((hc.assigns hsize).after hl (fun s => guestOf_loaded s _ _) fun s =>
    hostPointers_loaded s _ _).congr fun s => ?_
  rw [hostValue_of_isMem hm]
  simp [hostValue, operandValue, guest]

/-- The result of a memory operand and a register, in `X17`. -/
theorem does_combine_loaded {rb : Reg} {size : OpSize} {m ob : Operand} {js : List (Option Insn)}
    (hl : Loads inst m is) (hc : Combines alu size 17#5 17#5 rb js) (hm : m.isMem = true)
    (hrb : ∀ (s : State) (a : BitVec 64),
      ((s.writeX 16#5 a).writeX 17#5 (memValue inst s m.memSize m)).x rb = hostValue inst s ob) :
    Does (fun s s' => s'.x 16#5 = effectiveAddress inst s m - m.leftover.setWidth 64 ∧
      s'.x 17#5 = maskVal size (alu.result s.nzcv (hostValue inst s m) (hostValue inst s ob)) ∧
      guestOf s' = guestOf s ∧ hostPointers s' = hostPointers s) (is ++ js) := by
  intro env pc s
  refine ⟨_, by rw [runSeq_append, hl, Option.bind_some, hc], ?_⟩
  simp only [hrb, hostValue_of_isMem hm]
  simp

theorem computes_memOp {emit : LiftM Unit} {rb : Reg} {m ob : Operand}
    (hm : m.isMem = true) (hok : AccessOk p m m.memSize)
    (hrb : ∀ (s : State) (a : BitVec 64),
      ((s.writeX 16#5 a).writeX 17#5 (memValue inst s m.memSize m)).x rb = hostValue inst s ob)
    (h : Emits p emit fun _ is => Combines alu m.memSize 17#5 17#5 rb is) :
    Emits p (memRegOp inst m emit) fun _ is => Computes inst alu m ob is := by
  refine Emits.bind (emits_loadOperand_memSize hok fun is hfit hl =>
    Emits.bind (h.mono fun _ js hc => emits_storeSized (.inr hfit) fun _ => ?_))
  have hstore := assigns_store (by decide) hm hfit (does_combine_loaded hl hc hm hrb)
  rw [List.append_assoc] at hstore
  exact hstore.congr fun s => zeroExtended_maskVal _ _

theorem computes_memReg {emit : LiftM Unit} {rs : GpReg} {sz : OpSize} {m : Operand}
    (hm : m.isMem = true) (hok : AccessOk p m m.memSize)
    (h : Emits p emit fun _ is => Combines alu m.memSize 17#5 17#5 (hostReg rs) is) :
    Emits p (memRegOp inst m emit) fun _ is => Computes inst alu m (.reg rs sz) is :=
  computes_memOp hm hok (fun s a => by simp [hostValue, operandValue, guest]) h

/-- A displacement that is not added through `X17`. -/
theorem emits_memDispInto_spares {m : Mem} (hspare : m.addsVia17 = false) {rd : Reg} (hrd : rd ≠ 31#5)
    {Q : BitVec 32 → List (Option Insn) → Prop}
    (h : ∀ is, Sets rd (fun s => s.x rd + m.disp.signExtend 64 - m.leftover.setWidth 64) is → Q m.leftover is) :
    Emits p (memDispInto m.disp rd) Q := by
  have hkeep : ∀ f : State → BitVec 64, (∀ s, f s = s.x rd) → Sets rd f [] := by
    intro f hf env pc s
    rw [hf, State.writeX_x_self]
    rfl
  unfold memDispInto
  rw [Mem.leftover] at h
  by_cases h0 : m.disp = 0
  · rw [if_pos h0]
    rw [h0] at h
    exact Emits.pure (h [] (hkeep _ fun s => by simp))
  rw [if_neg h0]
  by_cases hs : 0 < m.disp.toInt ∧ m.disp.toNat < 2 ^ 24
  · rw [if_pos hs]
    rw [if_pos hs, signExtend_of_pos hs.1] at h
    exact Emits.pure (h [] (hkeep _ fun s => BitVec.add_sub_cancel _ _))
  rw [if_neg hs]
  rw [if_neg hs] at h
  have henc : imm12Encodable (unsignedAbs m.disp) = true := by
    have hl : m.leftover = 0 := if_neg hs
    simpa [Mem.addsVia17, hl] using hspare
  by_cases hp : 0 < m.disp.toInt
  · rw [if_pos hp]
    rw [signExtend_of_pos hp] at h
    rw [unsignedAbs_of_pos hp] at henc
    unfold add64ImmSafe
    rw [if_pos henc]
    refine Emits.bind (emits_add64Imm fun sh i hv => Emits.pure (h _ fun env pc s => ?_))
    rw [List.append_nil, runSeq_add64Imm hv, State.writeX_of_ne _ _ _ hrd]
    simp [State.writeXsp]
  · rw [if_neg hp]
    rw [signExtend_of_nonpos hp] at h
    unfold sub64ImmSafe
    rw [if_pos henc]
    refine Emits.bind (emits_sub64Imm fun sh i hv => Emits.pure (h _ fun env pc s => ?_))
    rw [List.append_nil, runSeq_sub64Imm hv, State.writeX_of_ne _ _ _ hrd]
    simp [State.writeXsp, BitVec.sub_eq_add_neg]

/-- Address code that leaves `X17` alone writes `X16` only. -/
theorem emits_addrIntoXtmp_spares {op : Operand} (hspare : op.SparesX17)
    {Q : BitVec 32 → List (Option Insn) → Prop}
    (h : ∀ is, Sets 16#5 (fun s => effectiveAddress inst s op - op.leftover.setWidth 64) is → Q op.leftover is) :
    Emits p (addrIntoXtmp op inst 16) Q := by
  cases op with
  | mem m =>
    refine emits_memAddressInto (.inl rfl) m fun is hs =>
      emits_memDispInto_spares hspare (by decide) fun js hd => h _ fun env pc s => ?_
    rw [runSeq_append, hs, Option.bind_some, hd, writeX_writeX_self]
    simp [effectiveAddress, Operand.leftover, Mem.address_eq]
  | ripRel d sz =>
    refine Emits.bind (emits_loadConst64 (by decide) _ fun is hl => Emits.pure ?_)
    rw [List.append_nil]
    refine h is fun env pc s => ?_
    rw [hl.run]
    simp [effectiveAddress, Operand.leftover, ripRelTarget]
  | _ => exact Emits.fail

theorem computes_memImm {emit : LiftM Unit} {sz : OpSize} {m : Operand} {v : BitVec 64}
    (hm : m.isMem = true) (hok : AccessOk p m m.memSize) (hspare : m.SparesX17)
    (h : Emits p emit fun _ is => Combines alu m.memSize 17#5 17#5 16#5 is) :
    Emits p (memImmOp inst m v emit) fun _ is => Computes inst alu m (.imm v sz) is := by
  refine Emits.bind (emits_loadOperand_memSize hok fun is hfit hl =>
    Emits.bind (emits_loadConst64 (by decide) v fun is₁ hc₁ => Emits.bind (h.mono fun _ js hc =>
      Emits.bind (emits_addrIntoXtmp_spares hspare fun is₂ ha => emits_storeSized (.inr hfit) fun _ => ?_))))
  have hcode : Does (fun s s' => s'.x 16#5 = effectiveAddress inst s m - m.leftover.setWidth 64 ∧
      s'.x 17#5 = maskVal m.memSize (alu.result s.nzcv (hostValue inst s m) v) ∧
      guestOf s' = guestOf s ∧ hostPointers s' = hostPointers s) (is ++ (is₁ ++ (js ++ is₂))) := by
    intro env pc s
    refine ⟨_, by rw [runSeq_append, hl, Option.bind_some, runSeq_append, hc₁.run, Option.bind_some,
      runSeq_append, hc, Option.bind_some, ha], ?_⟩
    simp only [hostValue_of_isMem hm]
    have haddr : ∀ t : State, guestOf t = guestOf s → effectiveAddress inst t m = effectiveAddress inst s m := by
      intro t ht
      rw [← address_guestOf, ← address_guestOf, ht]
    simp [haddr]
  have hstore := assigns_store (by decide) hm hfit hcode
  simp only [List.append_assoc] at hstore
  exact hstore.congr fun s => zeroExtended_maskVal _ _

end Forms

/-! ### Two operands -/

variable {inst : Inst} {alu : Alu}

theorem computes_memForms (inst : Inst) (op : Op) {emit : Reg → Reg → Reg → OpSize → LiftM Unit}
    (hbin : Binary p alu emit)
    {oa ob : Operand} (hdst : oa.IsDest) (hsrc : ob.IsSource) (hspare : ∀ v sz, ob = .imm v sz → oa.SparesX17) :
    Emits p (match oa, ob with
      | .reg rd size, .mem m =>
        regMemOp inst (.mem m) fun r => emit (hostReg rd) (hostReg rd) r size
      | .reg rd size, .ripRel d s =>
        regMemOp inst (.ripRel d s) fun r => emit (hostReg rd) (hostReg rd) r size
      | .mem m, .reg rs _ => memRegOp inst (.mem m) (emit 17 17 (hostReg rs) m.size)
      | .ripRel d s, .reg rs _ => memRegOp inst (.ripRel d s) (emit 17 17 (hostReg rs) s)
      | .mem m, .imm imm _ => memImmOp inst (.mem m) imm (emit 17 17 16 m.size)
      | .ripRel d s, .imm imm _ => memImmOp inst (.ripRel d s) imm (emit 17 17 16 s)
      | _, _ => unsupported op : LiftM Unit)
      fun _ is => Computes inst alu oa ob is := by
  have hr : ∀ r : GpReg, hostReg r ≠ 31#5 := hostReg_ne_31
  have h17 : (17#5 : Reg) ≠ 31#5 := by decide
  have h16 : (16#5 : Reg) ≠ 31#5 := by decide
  cases oa with
  | reg rd size =>
    cases ob with
    | mem m => exact computes_regMem hdst rfl (.inr hsrc) (hbin (hr rd) (hr rd) h17)
    | ripRel d s => exact computes_regMem hdst rfl (.inr (fits_zero s)) (hbin (hr rd) (hr rd) h17)
    | _ => exact Emits.fail
  | mem m =>
    cases ob with
    | reg rs sz => exact computes_memReg rfl (.inr hdst) (hbin h17 h17 (hr rs))
    | imm v sz => exact computes_memImm rfl (.inr hdst) (hspare v sz rfl) (hbin h17 h17 h16)
    | _ => exact Emits.fail
  | ripRel d s =>
    cases ob with
    | reg rs sz => exact computes_memReg rfl (.inr (fits_zero s)) (hbin h17 h17 (hr rs))
    | imm v sz => exact computes_memImm rfl (.inr (fits_zero s)) trivial (hbin h17 h17 h16)
    | _ => exact Emits.fail
  | _ => exact Emits.fail

theorem withRight_result (alu : Alu) (b : BitVec 64) (f : A64.Flags) (a c : BitVec 64) :
    (alu.withRight b).result f a c = alu.result f a b := rfl

/-- One instruction with the immediate, then the mask. -/
theorem combines_addSubImm {sub sh : Bool} {i : BitVec 12} {rd : Reg} {size : OpSize} {v : BitVec 64}
    {js : List (Option Insn)} (hrd : rd ≠ 31#5) (hi : immValue sh i = v)
    (hjs : Sets rd (fun s => maskVal size (s.x rd)) js) :
    Combines ((Alu.adder sub fun _ => sub).withRight v) size rd rd rd
      ([some (.addSubImm sub true sh i rd rd)] ++ js) := by
  refine Combines.mask hrd (fun env pc s => ?_) hjs
  rw [execOne_addSubImm, hi, Alu.withRight_write]

theorem computes_arithRegImm (kind : ArithKind) {rd : GpReg} {size sz : OpSize} (hsize : size.IsWide)
    {v : BitVec 64} (hv : v = (v.setWidth 32).signExtend 64) :
    Emits p (arithRegImm inst kind rd size v) fun _ is => Computes inst kind.alu (.reg rd size) (.imm v sz) is := by
  have hrd := hostReg_ne_31 rd
  unfold arithRegImm
  split
  · rename_i hs
    have hsmall : smallImm v = true := (Bool.and_eq_true_iff.mp hs).1
    have hval := setWidth_of_smallImm hv hsmall
    have hone : ∀ (sub sh : Bool) (i : BitVec 12) (js : List (Option Insn)),
        immValue sh i = v → Sets (hostReg rd) (fun s => maskVal size (s.x (hostReg rd))) js →
        Computes inst (Alu.adder sub fun _ => sub) (.reg rd size) (.imm v sz)
          ([some (.addSubImm sub true sh i (hostReg rd) (hostReg rd))] ++ js) := by
      intro sub sh i js hi hjs
      refine ((combines_addSubImm hrd hi hjs).assigns hsize).congr fun s => ?_
      rw [withRight_result]
      rfl
    cases kind with
    | add =>
      exact Emits.bind (emits_adds64Imm fun sh i hi =>
        emits_maskB4 hrd fun js hjs => hone false sh i js (hi.trans hval) hjs)
    | sub =>
      exact Emits.bind (emits_subs64Imm fun sh i hi =>
        emits_maskB4 hrd fun js hjs => hone true sh i js (hi.trans hval) hjs)
  · split
    · refine Emits.bind (emits_loadConst64 (by decide) v fun is hl => ?_)
      exact (binary_emitArithRr kind hrd hrd (by decide)).mono fun _ js hc =>
        computes_regImm (.inr rfl) hsize hl hc
    · exact Emits.fail

theorem computes_xorSelf {rd : GpReg} {size sz : OpSize} : size.IsWide →
    Emits p (match size with
      | .b8 => movz64 (hostReg rd) 0 0
      | .b4 | .b2 | .b1 => movz32 (hostReg rd) 0 0 : LiftM Unit)
      fun _ is => Computes inst (.logic .eor) (.reg rd size) (.reg rd sz) is := by
  intro hsize
  have hzero : ∀ is64 : Bool, Computes inst (.logic .eor) (.reg rd size) (.reg rd sz)
      [some (.movWide is64 .movz 0 0 (hostReg rd))] := by
    intro is64
    have hsets : Sets (hostReg rd) (fun _ => 0) [some (.movWide is64 .movz 0 0 (hostReg rd))] := by
      intro env pc s
      cases is64 <;> rfl
    refine hsets.assigns fun s => ?_
    have hself : (Alu.logic .eor).result s.nzcv (hostValue inst s (.reg rd size))
        (hostValue inst s (.reg rd sz)) = 0 := BitVec.xor_self
    rw [hself, ← maskVal_eq_into hsize]
    cases size <;> rfl
  cases size with
  | b8 => exact emits_movz64 (hzero true)
  | _ => exact emits_movz32 (hzero false)

section Lifts

variable {oa ob : Operand} (h0 : inst.operand0 = some oa) (h1 : inst.operand1 = some ob) (hdst : oa.IsDest)
  (hsrc : ob.IsSource) (hspare : ∀ v sz, ob = .imm v sz → oa.SparesX17)
include h0 h1 hdst hsrc hspare

theorem computes_liftArith (kind : ArithKind) (himm : ob.ImmOk) :
    Emits p (liftArith inst kind) fun _ is => Computes inst kind.alu oa ob is := by
  unfold liftArith
  rw [h0, h1]
  refine Emits.bind (Emits.pure (Emits.bind (Emits.pure ?_)))
  simp only [List.nil_append]
  have hbin := binary_emitArithRr (p := p) kind
  have hforms := computes_memForms inst inst.op hbin hdst hsrc hspare
  cases oa with
  | reg rd size =>
    cases ob with
    | reg rs sz =>
      exact (hbin (hostReg_ne_31 rd) (hostReg_ne_31 rd) (hostReg_ne_31 rs)).mono
        fun _ is h => computes_regReg hdst h
    | imm v sz => exact computes_arithRegImm kind hdst himm
    | _ => exact hforms
  | mem m => cases ob <;> exact hforms
  | ripRel d s => cases ob <;> exact hforms
  | _ => exact Emits.fail

theorem computes_liftBitop (op : BitOp) :
    Emits p (liftBitop inst op) fun _ is => Computes inst op.alu oa ob is := by
  unfold liftBitop
  rw [h0, h1]
  refine Emits.bind (Emits.pure (Emits.bind (Emits.pure ?_)))
  simp only [List.nil_append]
  have hbin := binary_emitBitopRr (p := p) op
  have hforms := computes_memForms inst inst.op hbin hdst hsrc hspare
  cases oa with
  | reg rd size =>
    cases ob with
    | reg rs sz =>
      exact (hbin (hostReg_ne_31 rd) (hostReg_ne_31 rd) (hostReg_ne_31 rs)).mono
        fun _ is h => computes_regReg hdst h
    | imm v sz =>
      refine Emits.bind (emits_loadConst64 (by decide) v fun is hl => ?_)
      exact (hbin (hostReg_ne_31 rd) (hostReg_ne_31 rd) (by decide)).mono fun _ js hc =>
        computes_regImm (.inl rfl) hdst hl hc
    | _ => exact hforms
  | mem m => cases ob <;> exact hforms
  | ripRel d s => cases ob <;> exact hforms
  | _ => exact Emits.fail

theorem computes_liftXor :
    Emits p (liftXor inst) fun _ is => Computes inst (.logic .eor) oa ob is := by
  unfold liftXor
  rw [h0, h1]
  refine Emits.bind (Emits.pure (Emits.bind (Emits.pure ?_)))
  simp only [List.nil_append]
  have hbin := binary_emitXorRr (p := p)
  have hforms := computes_memForms inst .xor hbin hdst hsrc hspare
  cases oa with
  | reg rd size =>
    cases ob with
    | reg rs sz =>
      by_cases hrs : rd = rs
      · subst hrs
        simp only [if_true]
        exact computes_xorSelf hdst
      · simp only [if_neg hrs]
        exact (hbin (hostReg_ne_31 rd) (hostReg_ne_31 rd) (hostReg_ne_31 rs)).mono
          fun _ is h => computes_regReg hdst h
    | imm v sz =>
      refine Emits.bind (emits_loadConst64 (by decide) v fun is hl => ?_)
      exact (hbin (hostReg_ne_31 rd) (hostReg_ne_31 rd) (by decide)).mono fun _ js hc =>
        computes_regImm (.inl rfl) hdst hl hc
    | _ => exact hforms
  | mem m => cases ob <;> exact hforms
  | ripRel d s => cases ob <;> exact hforms
  | _ => exact Emits.fail

end Lifts

/-! ### One operand -/

theorem computes_unaryOp {oa : Operand} (h0 : inst.operand0 = some oa) (hdst : oa.IsDest)
    {emit : Reg → LiftM Unit} (hemit : Unary p alu emit) (op : Op) :
    Emits p (unaryOp inst emit op) fun _ is => Computes inst alu oa oa is := by
  have hcomb : ∀ (r : Reg) (size : OpSize), r ≠ 31#5 →
      Emits p (do emit r; maskB4 size r : LiftM Unit) fun _ is => Combines alu size r r r is := by
    intro r size hr
    exact Emits.bind (hemit hr fun i hi => emits_maskB4 hr fun js hjs => Combines.mask hr hi hjs)
  unfold unaryOp
  rw [h0]
  refine Emits.bind (Emits.pure ?_)
  simp only [List.nil_append]
  cases oa with
  | reg rd size =>
    exact (hcomb _ size (hostReg_ne_31 rd)).mono fun _ is h => computes_regReg hdst h
  | mem m =>
    exact computes_memOp rfl (.inr hdst) (fun s a => by simp [hostValue, operandValue])
      (hcomb _ _ (by decide))
  | ripRel d s =>
    exact computes_memOp rfl (.inr (fits_zero s)) (fun s a => by simp [hostValue, operandValue])
      (hcomb _ _ (by decide))
  | _ => exact Emits.fail

/-! ### The values of the operands -/

/-- The host's value of an operand is the guest's, at the size of the destination. -/
theorem zeroExtended_hostValue {dst src : Operand} (h : SameSize dst src) (s : State) :
    dst.memSize.zeroExtended (hostValue inst s src) = dst.memSize.zeroExtended ((guestOf s).value inst src) := by
  cases src with
  | reg r size =>
    obtain rfl : size = dst.memSize := h
    exact (OpSize.zeroExtended_idem _ _).symm
  | _ => rfl

theorem sameSize_self (op : Operand) : SameSize op op := by
  cases op <;> first | rfl | trivial

theorem Computes.assigns {oa ob : Operand} {f : BitVec 64 → BitVec 64 → BitVec 64} {is : List (Option Insn)}
    (h : Computes inst alu oa ob is) (hf : LowBits f) (hres : ∀ fl a b, alu.result fl a b = f a b)
    (hsame : SameSize oa ob) :
    Assigns inst oa (fun s => f ((guestOf s).value inst oa) ((guestOf s).value inst ob)) is := by
  refine h.congr fun s => ?_
  rw [hres]
  exact hf _ _ _ _ _ (zeroExtended_hostValue (sameSize_self oa) s) (zeroExtended_hostValue hsame s)

/-! ### Multiplication -/

/-- The code leaves a value in a scratch register and keeps the rest of the guest. -/
def Fetches (r : Reg) (v : State → BitVec 64) : List (Option Insn) → Prop :=
  Does fun s s' => s'.x r = v s ∧ guestOf s' = guestOf s ∧ hostPointers s' = hostPointers s

theorem fetches_operandIntoX17 (inst : Inst) {src : Operand} (hsrc : src.IsSource) :
    Emits p (operandIntoX17 inst src) fun _ is => Fetches 17#5 (fun s => hostValue inst s src) is := by
  cases src with
  | reg r size =>
    refine emits_mov64 fun env pc s => ⟨_, by rw [runSeq_mov64, readX_hostReg, runSeq_nil], ?_⟩
    simp [hostValue, operandValue, guest]
  | mem m =>
    refine Emits.bind (emits_loadOperand_memSize (.inr hsrc) fun is _ hl => Emits.pure ?_)
    rw [List.append_nil]
    exact fun env pc s => ⟨_, hl env pc s, by simp [hostValue, operandValue]⟩
  | ripRel d size =>
    refine Emits.bind (emits_loadOperand_memSize (.inr (fits_zero size)) fun is _ hl => Emits.pure ?_)
    rw [List.append_nil]
    exact fun env pc s => ⟨_, hl env pc s, by simp [hostValue, operandValue]⟩
  | imm v size => exact Emits.fail
  | xmmReg n size => cases hsrc

/-- The product of `X17` and `X16`, masked. -/
theorem assigns_mul (inst : Inst) {r : GpReg} {size : OpSize} (hsize : size.IsWide) {a b : State → BitVec 64}
    {is js : List (Option Insn)}
    (h : Does (fun s s' => s'.x 17#5 = a s ∧ s'.x 16#5 = b s ∧ guestOf s' = guestOf s ∧
      hostPointers s' = hostPointers s) is)
    (hjs : Sets (hostReg r) (fun s => maskVal size (s.x (hostReg r))) js) :
    Assigns inst (.reg r size) (fun s => a s * b s)
      (is ++ (some (.dp3 .madd 16 31 17 (hostReg r)) :: js)) := by
  have hmul : Sets (hostReg r) (fun s => s.x 17#5 * s.x 16#5) [some (.dp3 .madd 16 31 17 (hostReg r))] := by
    intro env pc s
    show some (s.writeX (hostReg r) (execDp3 .madd (s.readX 17#5) (s.readX 16#5) (s.readX 31#5))) = _
    simp [execDp3, State.readX]
  have hboth : Sets (hostReg r) (fun s => maskVal size (s.x 17#5 * s.x 16#5))
      ([some (.dp3 .madd 16 31 17 (hostReg r))] ++ js) := hmul.append (hostReg_ne_31 r) hjs
  have hassign : Assigns inst (.reg r size) (fun s => s.x 17#5 * s.x 16#5)
      ([some (.dp3 .madd 16 31 17 (hostReg r))] ++ js) :=
    hboth.assigns fun s => maskVal_eq_into hsize _ _
  refine (h.append hassign).mono ?_
  rintro s s' ⟨t, ⟨ha, hb, hguest, hctx⟩, hs', hctx'⟩
  refine ⟨?_, hctx'.trans hctx⟩
  rw [hs', hguest]
  dsimp only
  rw [ha, hb]

/-- The host's value of an operand depends on the guest only. -/
theorem hostValue_congr {s t : State} (h : guestOf t = guestOf s) (op : Operand) :
    hostValue inst t op = hostValue inst s op := by
  have hregs : guest t = guest s := congrArg GuestMachine.regs h
  have hmem : t.mem = s.mem := congrArg GuestMachine.mem h
  have haddr : effectiveAddress inst t op = effectiveAddress inst s op := by
    rw [← address_guestOf, ← address_guestOf, h]
  cases op with
  | reg r size => exact congrFun hregs r
  | imm v size => rfl
  | _ => simp only [hostValue, operandValue, memValue, hmem, haddr]

/-- The product, behind code that leaves the first factor in `X17`. -/
theorem emits_mulTail {r : GpReg} {size : OpSize} (hsize : size.IsWide) {v : State → BitVec 64}
    {is : List (Option Insn)} (h : Fetches 17#5 v is) :
    Emits p (do
      match inst.operand2 with
      | some (.imm imm _) => loadConst64 16 imm
      | none => mov64 16 (hostReg r)
      | _ => unsupported .imul
      mul64 (hostReg r) 17 16
      maskB4 size (hostReg r) : LiftM Unit) fun _ js => Assigns inst (.reg r size)
        (fun s => v s * hostValue inst s (inst.operand2.getD (.reg r size))) (is ++ js) := by
  -- the code of the second factor
  have htail : ∀ js : List (Option Insn), (∀ env pc s, runSeq env pc js s
      = some (s.writeX 16#5 (hostValue inst s (inst.operand2.getD (.reg r size))))) →
      Emits p (do mul64 (hostReg r) 17 16; maskB4 size (hostReg r) : LiftM Unit) fun _ ks =>
        Assigns inst (.reg r size) (fun s => v s * hostValue inst s (inst.operand2.getD (.reg r size)))
          (is ++ (js ++ ks)) := by
    intro js hjs
    have hfetches : Does (fun s s' => s'.x 17#5 = v s ∧
        s'.x 16#5 = hostValue inst s (inst.operand2.getD (.reg r size)) ∧
        guestOf s' = guestOf s ∧ hostPointers s' = hostPointers s) (is ++ js) := by
      intro env pc s
      obtain ⟨t, hrun, h17, hguest, hctx⟩ := h env pc s
      refine ⟨_, by rw [runSeq_append, hrun, Option.bind_some, hjs], ?_⟩
      rw [hostValue_congr hguest]
      simp [h17, hguest, hctx]
    refine Emits.bind (emits_mul64 (emits_maskB4 (hostReg_ne_31 r) fun ks hmask => ?_))
    have hmul := assigns_mul inst hsize hfetches hmask
    rw [List.append_assoc] at hmul
    exact hmul
  dsimp only
  cases h2 : inst.operand2 with
  | none =>
    refine Emits.bind (emits_mov64 ?_)
    rw [h2] at htail
    refine htail _ fun env pc s => ?_
    rw [runSeq_mov64, readX_hostReg, runSeq_nil]
    rfl
  | some src =>
    cases src with
    | imm imm sz =>
      refine Emits.bind (emits_loadConst64 (by decide) imm fun is hl => ?_)
      rw [h2] at htail
      refine htail _ fun env pc s => ?_
      rw [hl.run]
      rfl
    | _ => exact Emits.bind Emits.fail

theorem assigns_liftImulNOperand {r : GpReg} {size : OpSize} {src : Operand}
    (h0 : inst.operand0 = some (.reg r size)) (h1 : inst.operand1 = some src) (hsize : size.IsWide)
    (hsrc : src.IsSource) :
    Emits p (liftImulNOperand inst) fun _ is => Assigns inst (.reg r size)
      (fun s => hostValue inst s src * hostValue inst s (inst.operand2.getD (.reg r size))) is := by
  unfold liftImulNOperand
  rw [h0, h1]
  refine Emits.bind (Emits.pure (Emits.bind (Emits.pure ?_)))
  simp only [List.nil_append]
  have hfetch := fetches_operandIntoX17 (p := p) inst hsrc
  cases src with
  | reg | mem | ripRel => exact Emits.bind (hfetch.mono fun _ is h => emits_mulTail hsize h)
  | imm | xmmReg => exact Emits.bind Emits.fail

/-! ### Shifts -/

/-- The code leaves the count in `r`, modulo 64, and keeps the guest. -/
def Counts (r : Reg) (count : State → Nat) : List (Option Insn) → Prop :=
  Does fun s s' => (s'.x r).toNat % 64 = count s ∧ guestOf s' = guestOf s ∧ hostPointers s' = hostPointers s

theorem emits_counts_imm (imm : BitVec 16) :
    Emits p (do movz64 16 imm 0; pure 16 : LiftM Reg) fun r is =>
      r = 16#5 ∧ Counts r (fun _ => imm.toNat % 64) is := by
  refine Emits.bind ((emits_movz64_sets imm).mono fun _ is hset => Emits.pure ⟨rfl, ?_⟩)
  rw [List.append_nil]
  intro env pc s
  refine ⟨_, hset env pc s, ?_, guestOf_writeX_16 s _, hostPointers_writeX_16 s _⟩
  have hval : (s.writeX 16#5 (imm.setWidth 64)).x 16#5 = imm.setWidth 64 := by simp
  show ((s.writeX 16#5 (imm.setWidth 64)).x 16#5).toNat % 64 = imm.toNat % 64
  rw [hval, BitVec.toNat_setWidth_of_le (by decide)]

theorem counts_rcx : Counts (hostReg .rcx) (fun s => (guest s .rcx).toNat % 64) [] :=
  fun _ _ s => ⟨s, rfl, rfl, rfl, rfl⟩

theorem emits_counts_rol (size : OpSize) :
    Emits p (do
      movz64 16 ((rotateWidth size).setWidth 16) 0
      subs64 16 16 (hostReg .rcx)
      pure 16 : LiftM Reg) fun r is => r = 16#5 ∧ Counts r
        (fun s => ((rotateWidth size).setWidth 64 - guest s .rcx).toNat % 64) is := by
  refine Emits.bind ((emits_movz64_sets _).mono fun _ is hset => ?_)
  refine Emits.bind (emits_subs64 (Emits.pure ⟨rfl, ?_⟩))
  have hwidth : ((rotateWidth size).setWidth 16).setWidth 64 = (rotateWidth size).setWidth 64 := by
    cases size <;> decide
  intro env pc s
  rw [hwidth] at hset
  -- the state between the two instructions
  obtain ⟨t, ht⟩ : ∃ t, t = s.writeX 16#5 ((rotateWidth size).setWidth 64) := ⟨_, rfl⟩
  have hmov : runSeq env pc is s = some t := (hset env pc s).trans (congrArg some ht.symm)
  have hguest : guestOf t = guestOf s := by rw [ht, guestOf_writeX_16]
  have hctx : hostPointers t = hostPointers s := by rw [ht, hostPointers_writeX_16]
  have hrcx : t.readX (hostReg .rcx) = guest s .rcx :=
    (t.readX_of_ne _ (hostReg_ne_31 .rcx)).trans (congrFun (congrArg GuestMachine.regs hguest) .rcx)
  have h16 : t.readX 16#5 = (rotateWidth size).setWidth 64 := by
    rw [t.readX_of_ne _ (by decide), ht]
    simp
  obtain ⟨f, hsub⟩ : ∃ f, execOne env (pc + is.length) (.addSubShift true true (hostReg .rcx) 0 16 16) t
      = some { t.writeX 16#5 (t.readX 16#5 - t.readX (hostReg .rcx)) with nzcv := f } :=
    ⟨_, execOne_subs64 t (hostReg .rcx) 16#5 16#5⟩
  rw [h16, hrcx] at hsub
  rw [List.append_nil, runSeq_append, hmov, Option.bind_some, runSeq_cons, hsub]
  refine ⟨_, rfl, ?_, ?_, ?_⟩
  · show ((t.writeX 16#5 ((rotateWidth size).setWidth 64 - guest s .rcx)).x 16#5).toNat % 64 = _
    simp
  · rw [guestOf_nzcv, guestOf_writeX_16, hguest]
  · exact (hostPointers_writeX_16 t ((rotateWidth size).setWidth 64 - guest s .rcx)).trans hctx

/-- The count, then the shift. -/
theorem assigns_shift (inst : Inst) {op : ShiftOp} {rd : GpReg} {size : OpSize} {amt : Operand} {r : Reg}
    {is js : List (Option Insn)} (hok : ShiftOk op size amt) (hamt : Counts r (op.hostCount size amt) is)
    (hblock : ShiftBlock op size (hostReg rd) r js) : Assigns inst (.reg rd size)
      (fun s => op.result size (guest s rd) (shiftCount size amt s)) (is ++ js) := by
  intro env pc s
  obtain ⟨t, hrun, hcount, hguest, hctx⟩ := hamt env pc s
  have hold : t.x (hostReg rd) = guest s rd := congrFun (congrArg GuestMachine.regs hguest) rd
  refine ⟨_, by rw [runSeq_append, hrun, Option.bind_some, hblock], ?_, ?_⟩
  · rw [guestOf_writeX_hostReg, hguest]
    dsimp only
    rw [hcount, hold, hostResult_eq_of_ok hok]
    rfl
  · exact (hostPointers_writeX_hostReg t rd _).trans hctx

theorem emits_shiftAmount_counts {size : OpSize} {amt : Operand} {op : ShiftOp} (hop : op ≠ .rol) :
    Emits p (shiftAmount inst size amt) fun r is => r ≠ 31#5 ∧ Counts r (op.hostCount size amt) is := by
  unfold shiftAmount
  split
  · rename_i imm n
    refine (emits_counts_imm _).mono ?_
    rintro r is ⟨rfl, hamt⟩
    have hcount : ShiftOp.hostCount op size (.imm imm n)
        = fun _ => ((imm &&& countMask size).setWidth 16).toNat % 64 := by
      funext s
      show (rotateCount size (decide (op = .rol)) imm).toNat = _
      rw [decide_eq_false hop, toNat_rotateCount_false, toNat_setWidth_countMask]
    rw [hcount]
    exact ⟨by decide, hamt⟩
  · rename_i n
    have hcount : ShiftOp.hostCount op size (.reg .rcx n) = fun s => (guest s .rcx).toNat % 64 := by
      funext s
      exact if_neg hop
    rw [hcount]
    exact Emits.pure ⟨hostReg_ne_31 .rcx, counts_rcx⟩
  · exact Emits.fail

theorem emits_rotateAmount_counts {size : OpSize} {amt : Operand} (rol : Bool) :
    Emits p (rotateAmount inst size rol amt) fun r is =>
      r ≠ 31#5 ∧ Counts r ((ShiftOp.ofRol rol).hostCount size amt) is := by
  unfold rotateAmount
  split
  · rename_i imm n
    refine (emits_counts_imm _).mono ?_
    rintro r is ⟨rfl, hamt⟩
    have hcount : ShiftOp.hostCount (.ofRol rol) size (.imm imm n)
        = fun _ => ((rotateCount size rol imm).setWidth 16).toNat % 64 := by
      funext s
      have hlt := rotateCount_lt size rol imm
      have hrol : decide (ShiftOp.ofRol rol = .rol) = rol := by
        cases rol <;> rfl
      show (rotateCount size (decide (ShiftOp.ofRol rol = .rol)) imm).toNat = _
      rw [hrol, BitVec.toNat_setWidth]
      omega
    rw [hcount]
    exact ⟨by decide, hamt⟩
  · cases rol with
    | true =>
      refine (emits_counts_rol size).mono ?_
      rintro r is ⟨rfl, hamt⟩
      exact ⟨by decide, hamt⟩
    | false => exact Emits.pure ⟨hostReg_ne_31 .rcx, counts_rcx⟩
  · exact Emits.fail

section Shift

variable {rd : GpReg} {size : OpSize} {amt : Operand} (h0 : inst.operand0 = some (.reg rd size))
  (h1 : inst.operand1 = some amt)
include h0 h1

theorem assigns_liftShift (dir : ShiftDir) (hok : ShiftOk (.ofDir dir) size amt) :
    Emits p (liftShift inst dir) fun _ is => Assigns inst (.reg rd size)
      (fun s => (ShiftOp.ofDir dir).result size (guest s rd) (shiftCount size amt s)) is := by
  unfold liftShift
  rw [h0, h1]
  refine Emits.bind (Emits.pure (Emits.bind (Emits.pure ?_)))
  have hop : ShiftOp.ofDir dir ≠ .rol := by
    cases dir <;> decide
  refine Emits.bind ((emits_shiftAmount_counts hop).mono ?_)
  rintro r is ⟨hr, hamt⟩
  have hd31 := hostReg_ne_31 rd
  have hlifted : ∀ js, ShiftBlock (.ofDir dir) size (hostReg rd) r js → Assigns inst (.reg rd size)
      (fun s => (ShiftOp.ofDir dir).result size (guest s rd) (shiftCount size amt s)) (is ++ js) :=
    fun js hblock => assigns_shift inst hok hamt hblock
  dsimp only
  by_cases hsar : dir = .arithRight ∧ size = .b4
  · obtain ⟨rfl, rfl⟩ := hsar
    rw [if_pos ⟨rfl, rfl⟩]
    refine Emits.bind ((emits_emitSxtw_sets hd31).mono fun _ js hext => ?_)
    exact (emits_shift_mask hr hd31 (decode_asrv64 r _ _)).mono fun _ ks hshift =>
      hlifted _ (shiftBlock_sar_b4 hd31 hext hshift)
  · rw [if_neg hsar]
    refine Emits.bind (Emits.pure ?_)
    cases dir with
    | left =>
      exact (emits_shift_mask hr hd31 (decode_lslv64 r _ _)).mono fun _ js h => hlifted js h
    | right =>
      exact (emits_shift_mask hr hd31 (decode_lsrv64 r _ _)).mono fun _ js h => hlifted js h
    | arithRight =>
      have hb4 : size ≠ .b4 := fun h => hsar ⟨rfl, h⟩
      exact (emits_shift_mask hr hd31 (decode_asrv64 r _ _)).mono fun _ js h =>
        hlifted js (shiftBlock_sar hb4 h)

theorem assigns_liftRotate (rol : Bool) (hok : ShiftOk (.ofRol rol) size amt) :
    Emits p (liftRotate inst rol) fun _ is => Assigns inst (.reg rd size)
      (fun s => (ShiftOp.ofRol rol).result size (guest s rd) (shiftCount size amt s)) is := by
  unfold liftRotate
  rw [h0, h1]
  refine Emits.bind (Emits.pure (Emits.bind (Emits.pure ?_)))
  refine Emits.bind ((emits_rotateAmount_counts rol).mono ?_)
  rintro r is ⟨hr, hamt⟩
  refine (emits_shift_mask hr (hostReg_ne_31 rd) (decode_rorv64 r _ _)).mono fun _ js h => ?_
  have hblock : ShiftBlock (.ofRol rol) size (hostReg rd) r js := by
    cases rol <;> exact h
  have hshift := assigns_shift inst hok hamt hblock
  exact hshift

/-- Any shift or rotate whose result comes out right. -/
theorem assigns_lift_shift {legacy32 : Bool} {op : ShiftOp} (hop : inst.shiftOp = some op)
    (hok : ShiftOk op size amt) : Emits p (lift legacy32 inst) fun _ is => Assigns inst (.reg rd size)
      (fun s => op.result size (guest s rd) (shiftCount size amt s)) is := by
  unfold Inst.shiftOp at hop
  unfold lift
  split at hop <;> cases hop <;> rename_i hinst <;> rw [hinst]
  · exact assigns_liftShift h0 h1 .left hok
  · exact assigns_liftShift h0 h1 .right hok
  · exact assigns_liftShift h0 h1 .arithRight hok
  · exact assigns_liftRotate h0 h1 true hok
  · exact assigns_liftRotate h0 h1 false hok

end Shift

end Quantum.Jit
