import Quantum.Jit.Equiv.SizedOperand

/-!
# Compare, then test

A condition after `CMP`, against the guest's on the operands truncated to the operand size
(`cmp_condition_iff`).  The displacement that is left to the load of a memory operand must be one that the
load can have: with any other the load begins below the operand, and there is a state in which the operands
are equal and the host finds them different.
-/

namespace Quantum.Jit

open A64
open EmitM

variable {p : Profile} {inst : Inst} {oa ob : Operand}

/-- After the code `ws` of a compare, run from `s`, the mapped condition answers as the guest's does on the
operands truncated to the operand size. -/
def CmpRight (inst : Inst) (oa ob : Operand) (ws : List Word) (env : Env) (s : State) (cc : Cond) : Prop :=
  ∃ c, condX86ToA64 cc = some c ∧ ∃ s', Exec env ws s s' ∧
    c.holds s'.nzcv
      = (X86.subFlags ((operandValue inst s (cmpSize oa ob) oa).setWidth (cmpSize oa ob).bits)
          ((operandValue inst s (cmpSize oa ob) ob).setWidth (cmpSize oa ob).bits) false).holds cc

/-- The displacements left to the loads of a compare are ones that loads of its size can have. -/
def CmpFits (oa ob : Operand) : Prop :=
  Fits (cmpSize oa ob).bytes oa.leftover ∧ Fits (cmpSize oa ob).bytes ob.leftover

instance (oa ob : Operand) : Decidable (CmpFits oa ob) :=
  inferInstanceAs (Decidable (_ ∧ _))

/-! ### Displacements that fit -/

theorem condX86ToA64_isSome {cc : Cond} (hp : cc ≠ .p) (hnp : cc ≠ .np) :
    ∃ c, condX86ToA64 cc = some c := by
  cases cc with
  | p => exact absurd rfl hp
  | np => exact absurd rfl hnp
  | _ => exact ⟨_, rfl⟩

theorem cmpRight_iff {ws : List Word} (h0 : inst.operand0 = some oa) (h1 : inst.operand1 = some ob)
    (hsize : cmpSize oa ob = .b4 ∨ cmpSize oa ob = .b8) (himm : ob.ImmOk) (hfit : CmpFits oa ob)
    (hws : compile p (liftCmp inst) = some ws) {cc : Cond} (hp : cc ≠ .p) (hnp : cc ≠ .np) (env : Env)
    (s : State) : CmpRight inst oa ob ws env s cc ↔ cmpSize oa ob = .b8 ∨
      HalvesAgree (operandValue inst s (cmpSize oa ob) oa) (operandValue inst s (cmpSize oa ob) ob) cc := by
  obtain ⟨-, hcmp⟩ := (emits_liftCmp h0 h1 himm (.inr hfit.1) (.inr hfit.2)).of_compile hws
  obtain ⟨s₁, hs₁⟩ := hcmp env 0 s
  obtain ⟨c, hc⟩ := condX86ToA64_isSome hp hnp
  have hright : CmpRight inst oa ob ws env s cc ↔ ∃ s', Exec env ws s s' ∧ c.holds s'.nzcv
      = (X86.subFlags ((operandValue inst s (cmpSize oa ob) oa).setWidth (cmpSize oa ob).bits)
          ((operandValue inst s (cmpSize oa ob) ob).setWidth (cmpSize oa ob).bits) false).holds cc := by
    constructor
    · rintro ⟨c', hc', h⟩
      obtain rfl := Option.some.inj (hc.symm.trans hc')
      exact h
    · exact fun h => ⟨c, hc, h⟩
  rw [hright, (exec_of_runSeq hs₁).exists_iff, holds_condX86ToA64 hp hnp hc]
  rcases hsize with h4 | h8
  · rw [h4, X86.holds_subFlags _ _ (by decide)]
    have hne : ¬ OpSize.b4 = .b8 := by decide
    rw [or_iff_right hne]
    exact compare_halves_iff hp hnp _ _
  · rw [h8, X86.holds_subFlags _ _ (by decide)]
    simp [OpSize.bits, OpSize.bytes]

/-! ### Displacements that do not fit -/

/-- A memory operand with the size of the compare. -/
def Operand.resized (size : OpSize) : Operand → Operand
  | .mem m => .mem { m with size := size }
  | .ripRel d _ => .ripRel d size
  | op => op

theorem effectiveAddress_resized (op : Operand) (size : OpSize) (s : State) :
    effectiveAddress inst s (op.resized size) = effectiveAddress inst s op := by
  cases op <;> rfl

theorem leftover_resized (op : Operand) (size : OpSize) : (op.resized size).leftover = op.leftover := by
  cases op <;> rfl

theorem memSize_resized {op : Operand} (hm : op.isMem = true) (size : OpSize) :
    (op.resized size).memSize = size := by
  cases op <;> first | rfl | cases hm

theorem emits_loadOperand_resized (op : Operand) (size : OpSize) :
    Emits p (loadOperand op inst size) fun _ is => LoadCode inst (op.resized size) is := by
  have hload : loadOperand op inst size = loadOperand (op.resized size) inst (op.resized size).memSize := by
    cases op <;> rfl
  rw [hload]
  exact (emits_loadOperand_code _ inst).mono fun _ _ h => h.2

/-- The memory operand `op` and every register hold `v`, and `X17` and the rest of memory its complement. -/
def differing (inst : Inst) (op : Operand) (v : BitVec 64) : State :=
  valueAt inst op v ((~~~v).setWidth 8) { (default : State) with x := fun r => if r = 17#5 then ~~~v else v }

theorem guest_differing (op : Operand) (v : BitVec 64) (r : GpReg) : guest (differing inst op v) r = v :=
  if_neg (hostReg_ne_17 r)

theorem operandValue_differing {op : Operand} (hm : op.isMem = true) (size : OpSize) (v : BitVec 64) :
    operandValue inst (differing inst (op.resized size) v) size op = size.zeroExtended v := by
  have hval : ∀ s, operandValue inst s size op
      = memValue inst s (op.resized size).memSize (op.resized size) := by
    intro s
    rw [memValue, effectiveAddress_resized, memSize_resized hm]
    cases op <;> first | rfl | cases hm
  rw [hval, differing, memValue_valueAt, memSize_resized hm]

/-- After a load whose displacement does not fit the two values are different. -/
def Unlike (f g : State → BitVec 64) (v : BitVec 64) : Prop :=
  ∀ t : State, (t.x 17#5).setWidth 8 = (~~~v).setWidth 8 → (∀ r, r ≠ 17#5 → r ≠ 16#5 → t.x r = v) →
    f t ≠ g t

theorem setWidth_not_ne (v : BitVec 64) : (~~~v).setWidth 8 ≠ v.setWidth 8 := by
  intro h
  have hbit := congrArg (fun x => x.getLsbD 0) h
  simp at hbit

theorem unlike_const (v : BitVec 64) : Unlike (fun s => s.x 17#5) (fun _ => v) v := by
  intro t hlow _ heq
  dsimp only at heq
  rw [heq] at hlow
  exact setWidth_not_ne v hlow.symm

theorem unlike_reg (r : GpReg) (v : BitVec 64) : Unlike (fun s => s.x 17#5) (fun s => s.x (hostReg r)) v := by
  intro t hlow hregs heq
  exact unlike_const v t hlow hregs (heq.trans (hregs _ (hostReg_ne_17 r) (hostReg_ne_16 r)))

/-- The code loads a memory operand of the compare at a displacement that does not fit and compares `X17`; in
`differing` the operands are equal. -/
structure Miscompares (inst : Inst) (oa ob op : Operand) (v : BitVec 64) (is : List (Option Insn)) : Prop where
  unfit : ¬ Fits op.memSize.bytes op.leftover
  code : ∃ is₁ js f g, LoadCode inst op is₁ ∧ Compares f g js ∧ Unlike f g v ∧ is = is₁ ++ js
  equal : (operandValue inst (differing inst op v) (cmpSize oa ob) oa).setWidth (cmpSize oa ob).bits
    = (operandValue inst (differing inst op v) (cmpSize oa ob) ob).setWidth (cmpSize oa ob).bits

theorem truncate_zeroExtended (size : OpSize) (v : BitVec 64) :
    (size.zeroExtended v).setWidth size.bits = v.setWidth size.bits := by
  cases size <;> simp [OpSize.zeroExtended, OpSize.bits, OpSize.bytes]

theorem emits_liftCmp_unfit (h0 : inst.operand0 = some oa) (h1 : inst.operand1 = some ob) (himm : ob.ImmOk)
    (hunfit : ¬ CmpFits oa ob) :
    Emits p (liftCmp inst) fun _ is => ∃ op v, Miscompares inst oa ob op v is := by
  unfold liftCmp
  rw [h0, h1]
  refine Emits.bind (Emits.pure (Emits.bind (Emits.pure ?_)))
  simp only [List.nil_append]
  have hzero : ∀ {op : Operand}, op.leftover = 0 → Fits (cmpSize oa ob).bytes op.leftover := by
    intro op h
    rw [h]
    exact fits_zero _
  have hrm : ∀ {ra : GpReg} {size : OpSize} {op : Operand}, op.isMem = true → oa = .reg ra size → ob = op →
      Emits p (cmpRegMem inst ra size op) fun _ is => ∃ op v, Miscompares inst oa ob op v is := by
    rintro ra size op hm rfl rfl
    refine Emits.bind ((emits_loadOperand_resized _ size).mono fun _ is hload => emits_subs64 ?_)
    have hcmp := @compares_cmp64 (hostReg ra) 17#5 (hostReg_ne_31 ra) (by decide)
    refine ⟨ob.resized size, 0, ?_, ⟨is, _, _, _, hload, hcmp, ?_, rfl⟩, ?_⟩
    · rw [memSize_resized hm, leftover_resized]
      exact fun hfit => hunfit ⟨hzero rfl, hfit⟩
    · exact fun t hlow hregs heq => unlike_reg ra 0 t hlow hregs heq.symm
    · change (guest _ ra).setWidth size.bits = (operandValue inst _ size ob).setWidth size.bits
      rw [guest_differing, operandValue_differing hm, truncate_zeroExtended]
  have hmr : ∀ {rb : GpReg} {size : OpSize} {op : Operand}, op.isMem = true → oa = op → ob = .reg rb size →
      Emits p (cmpMemReg inst op rb size) fun _ is => ∃ op v, Miscompares inst oa ob op v is := by
    rintro rb size op hm rfl rfl
    have hsize : cmpSize oa (.reg rb size) = size := by
      cases oa <;> first | rfl | cases hm
    refine Emits.bind ((emits_loadOperand_resized _ size).mono fun _ is hload => emits_subs64 ?_)
    refine ⟨oa.resized size, 0, ?_, ⟨is, _, _, _, hload, compares_cmp64 (by decide) (hostReg_ne_31 rb),
      unlike_reg rb 0, rfl⟩, ?_⟩
    · rw [memSize_resized hm, leftover_resized]
      exact fun hfit => hunfit ⟨by rwa [hsize], hzero rfl⟩
    · rw [hsize]
      change _ = (guest _ rb).setWidth size.bits
      rw [guest_differing, operandValue_differing hm, truncate_zeroExtended]
  have hmi : ∀ {v : BitVec 64} {sb : OpSize} {op : Operand}, op.isMem = true → oa = op → ob = .imm v sb →
      Emits p (cmpMemImm inst op v) fun _ is => ∃ op v, Miscompares inst oa ob op v is := by
    rintro v sb op hm rfl rfl
    have hsize : cmpSize oa (.imm v sb) = oa.memSize := by
      cases oa <;> rfl
    refine Emits.bind ((emits_loadOperand_resized _ oa.memSize).mono fun _ is hload => ?_)
    refine emits_cmpImm (by decide) (by decide) (by decide) himm fun js hc => ?_
    refine ⟨oa.resized oa.memSize, v, ?_, ⟨is, js, _, _, hload, hc, unlike_const v, rfl⟩, ?_⟩
    · rw [memSize_resized hm, leftover_resized]
      exact fun hfit => hunfit ⟨by rwa [hsize], hzero rfl⟩
    · rw [hsize, operandValue_differing hm, truncate_zeroExtended]
      rfl
  have hfits : ∀ {m : LiftM Unit} {Q : Unit → List (Option Insn) → Prop}, oa.leftover = 0 → ob.leftover = 0 →
      Emits p m Q := fun ha hb => absurd ⟨hzero ha, hzero hb⟩ hunfit
  cases oa with
  | reg ra sa =>
    cases ob with
    | mem m => cases sa <;> exact hrm rfl rfl rfl
    | ripRel d sz => cases sa <;> exact hrm rfl rfl rfl
    | _ => exact hfits rfl rfl
  | mem m =>
    cases ob with
    | reg rb sb => exact hmr rfl rfl rfl
    | imm v sb => exact hmi rfl rfl rfl
    | _ => exact Emits.fail
  | _ =>
    cases ob with
    | mem m => exact Emits.fail
    | _ => exact hfits rfl rfl

theorem Miscompares.not_equal {op : Operand} {v : BitVec 64} {ws : List Word} {s' : State}
    (h : Miscompares inst oa ob op v (ws.map decode)) (hexec : Exec default ws (differing inst op v) s') :
    s'.nzcv.z = false := by
  obtain ⟨is₁, js, f, g, hload, hcmp, hunlike, his⟩ := h.code
  have hlin : ∀ i, some i ∈ is₁ ++ js → i.isLinear = true := by
    intro i hi
    rcases List.mem_append.mp hi with hi | hi
    · exact hload.isLinear i hi
    · obtain ⟨s₁, hs₁⟩ := hcmp default 0 default
      exact isLinear_of_runSeq hs₁ i hi
  obtain ⟨t, ht, hrest⟩ := exec_append his hlin hexec
  have hmem : ∀ b, ¬ InRange (effectiveAddress inst (differing inst op v) op) 16 b →
      (differing inst op v).mem b = (~~~v).setWidth 8 := by
    intro b hb
    rw [differing, effectiveAddress_valueAt] at hb
    exact mem_valueAt hb
  obtain ⟨hlow, -, hregs⟩ := hload.misloads_byte (fun _ _ => rfl) h.unfit rfl hmem ht
  obtain ⟨s₁, hs₁⟩ := hcmp default is₁.length t
  rw [hs₁, Option.some.injEq] at hrest
  subst hrest
  have hne := hunlike t hlow fun r h17 h16 => (hregs r h17 h16).trans (if_neg h17)
  show (addc (f t) (~~~g t) true == 0) = false
  exact beq_false_of_ne fun h0 => hne ((addc_not_true_eq_zero_iff _ _).mp h0)

/-! ### The theorem -/

/-- **Compare and test.**  When the displacements left to the loads fit, the mapped condition after the code
of `CMP` answers as the guest's does, on the operands truncated to the operand size, exactly when the operand
size is `B8` or the halves of the host values agree.  When one does not, equal operands are found different in
some state. -/
theorem cmp_condition_iff {legacy32 : Bool} {ws : List Word} (hop : inst.op = .cmp)
    (h0 : inst.operand0 = some oa) (h1 : inst.operand1 = some ob)
    (hsize : cmpSize oa ob = .b4 ∨ cmpSize oa ob = .b8) (himm : ob.ImmOk)
    (hws : compile p (lift legacy32 inst) = some ws) :
    (CmpFits oa ob → ∀ cc, cc ≠ .p → cc ≠ .np → ∀ env s,
      (CmpRight inst oa ob ws env s cc ↔ cmpSize oa ob = .b8 ∨
        HalvesAgree (operandValue inst s (cmpSize oa ob) oa) (operandValue inst s (cmpSize oa ob) ob) cc)) ∧
    (¬ CmpFits oa ob → ∃ s, (operandValue inst s (cmpSize oa ob) oa).setWidth (cmpSize oa ob).bits
        = (operandValue inst s (cmpSize oa ob) ob).setWidth (cmpSize oa ob).bits ∧
      ¬ CmpRight inst oa ob ws default s .e) := by
  have hlift : lift legacy32 inst = liftCmp inst := by
    rw [lift, hop]
  rw [hlift] at hws
  refine ⟨fun hfit cc hp hnp env s => cmpRight_iff h0 h1 hsize himm hfit hws hp hnp env s, fun hunfit => ?_⟩
  obtain ⟨-, op, v, hmis⟩ := (emits_liftCmp_unfit h0 h1 himm hunfit).of_compile hws
  refine ⟨_, hmis.equal, ?_⟩
  rintro ⟨c, hc, s', hexec, hans⟩
  obtain rfl := Option.some.inj hc
  have hz := hmis.not_equal hexec
  rw [hmis.equal, X86.holds_subFlags _ _ (by cases cmpSize oa ob <;> decide)] at hans
  change s'.nzcv.z = _ at hans
  rw [hz] at hans
  simp [X86.compare] at hans

/-- `cmp eax, 5`. -/
def cmpEaxFive : Inst :=
  { Inst.empty .cmp 0x1000 3 with
    operand0 := some (.reg .rax .b4), operand1 := some (.imm 5 .b4) }


/-- `[rbx + 1]`. -/
def atRbxOne : Operand :=
  .mem ⟨some .rbx, none, 1, 1, .b8, none, scale_one⟩

/-- `cmp rax, [rbx + 1]`. -/
def cmpRaxAtRbx : Inst :=
  { Inst.empty .cmp 0x1000 4 with
    operand0 := some (.reg .rax .b8), operand1 := some atRbxOne }

/-- The code of `cmp rax, [rbx + 1]` without debug assertions: the load is at `rbx`. -/
def cmpRaxAtRbxCode : List Word :=
  [0xAA0303F0#32, 0xF9400211#32, 0xEB11001F#32]

theorem cmp_condition_iff_cmpEaxFive :
    (compile ⟨true⟩ (lift false cmpEaxFive) = some [0xF100141F#32] ∧
      (CmpRight cmpEaxFive (.reg .rax .b4) (.imm 5 .b4) [0xF100141F#32] default default .l
        ↔ OpSize.b4 = .b8 ∨ HalvesAgree 0#64 5#64 .l)) ∧
    compile ⟨false⟩ (lift false cmpRaxAtRbx) = some cmpRaxAtRbxCode ∧
      ∃ s, (operandValue cmpRaxAtRbx s .b8 (.reg .rax .b8)).setWidth 64
          = (operandValue cmpRaxAtRbx s .b8 atRbxOne).setWidth 64 ∧
        ¬ CmpRight cmpRaxAtRbx (.reg .rax .b8) atRbxOne cmpRaxAtRbxCode default s .e := by
  have hfive : compile ⟨true⟩ (lift false cmpEaxFive) = some [0xF100141F#32] := by decide
  have hat : compile ⟨false⟩ (lift false cmpRaxAtRbx) = some cmpRaxAtRbxCode := by decide
  have hok := cmp_condition_iff rfl rfl rfl (.inl rfl) (by decide) hfive
  have hmem : cmpRaxAtRbx.operand1 = some atRbxOne := rfl
  have hunfit := cmp_condition_iff rfl rfl hmem (.inr rfl) trivial hat
  exact ⟨⟨hfive, hok.1 (by decide) .l (by decide) (by decide) default default⟩, hat, hunfit.2 (by decide)⟩

/-- `cmp eax, -1`. -/
def cmpEaxMinusOne : Inst :=
  { Inst.empty .cmp 0x1000 3 with
    operand0 := some (.reg .rax .b4), operand1 := some (.imm (-1) .b4) }

/-- The code of `cmp eax, -1`: the immediate goes to `X17` as a 64-bit value. -/
def cmpEaxMinusOneCode : List Word :=
  [0xD29FFFF1#32, 0xF2BFFFF1#32, 0xF2DFFFF1#32, 0xF2FFFFF1#32, 0xEB11001F#32]

/-- With `EAX = 0xFFFFFFFF` the guest finds `cmp eax, -1` equal, and the host does not. -/
theorem cmp_eax_minus_one_not_equal :
    compile ⟨true⟩ (lift false cmpEaxMinusOne) = some cmpEaxMinusOneCode ∧
    (X86.subFlags 0xFFFFFFFF#32 0xFFFFFFFF#32 false).holds .e = true ∧
    ∃ s', Exec default cmpEaxMinusOneCode
        { (default : State) with x := fun r => if r = 0 then 0xFFFFFFFF#64 else 0 } s' ∧
      A64.Cond.eq.holds s'.nzcv = false := by
  refine ⟨by decide, by decide, ?_⟩
  refine ⟨_, exec_of_runSeq (by rfl), by decide⟩

end Quantum.Jit
