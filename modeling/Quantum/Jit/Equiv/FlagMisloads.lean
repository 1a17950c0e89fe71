import Quantum.Jit.Equiv.CompareCondition
import Quantum.Jit.Equiv.ExchangeMemory
import Quantum.Jit.Equiv.FlagsKept

/-!
# Flags of a value from elsewhere

Without debug assertions an instruction is emitted also when the load of its memory operand cannot have the
displacement.  The code is still the load and then what sets the flags from `X17` (`FlagCode`), but `X17` is not the
operand: there is a state in which the result is zero, and the host's flags say that it is not
(`FlagCode.exists_misled`).  The flags of `AND`, `OR` and `XOR` are not the result's anyway
(`FlagCode.nzcv_of_spares`).
-/

namespace Quantum.Jit

open A64
open EmitM

variable {p : Profile} {inst : Inst}

/-! ### The code behind the load -/

/-- The value of an operand once the memory operand is in `X17`. -/
def loadedValue (inst : Inst) (t : State) (op : Operand) : BitVec 64 :=
  if op.isMem = true then t.x 17#5 else hostValue inst t op

/-- Code without jumps that sets the flags from two operands, once the memory operand is in `X17`. -/
structure SetsFlags (inst : Inst) (fl : A64.Flags → BitVec 64 → BitVec 64 → A64.Flags) (oa ob : Operand)
    (js : List (Option Insn)) : Prop where
  linear : ∀ i, some i ∈ js → i.isLinear = true
  flags : ∀ {env : Env} {pc : Nat} {t t' : State}, runSeq env pc js t = some t' →
    t'.nzcv = fl t.nzcv (loadedValue inst t oa) (loadedValue inst t ob)

section Tails

variable {alu : Alu} {size : OpSize} {rd ra rb : Reg} {oa ob : Operand} {is js ks : List (Option Insn)}

theorem Combines.setsFlags (h : Combines alu size rd ra rb js) (ha : ∀ t, t.x ra = loadedValue inst t oa)
    (hb : ∀ t, t.x rb = loadedValue inst t ob) : SetsFlags inst alu.flags oa ob js where
  linear := isLinear_of_runSeq (h default 0 default)
  flags := by
    intro env pc t t' hrun
    rw [h, Option.some.injEq] at hrun
    rw [← hrun, ← ha, ← hb]
    rfl

/-- An immediate is put in `X16`. -/
theorem SetsFlags.immediate {v : BitVec 64} {sz : OpSize} (ho : oa.isMem = true) (hc : LoadsConst 16#5 v is)
    (h : Combines alu size rd 17#5 16#5 js) : SetsFlags inst alu.flags oa (.imm v sz) (is ++ js) where
  linear i hi := (List.mem_append.mp hi).elim (isLinear_of_runSeq (hc.run default 0 default) i)
    (isLinear_of_runSeq (h default 0 default) i)
  flags := by
    intro env pc t t' hrun
    rw [runSeq_append, hc.run, Option.bind_some, h, Option.some.injEq] at hrun
    rw [← hrun, loadedValue, if_pos ho]
    simp [Alu.write, loadedValue, Operand.isMem, hostValue, operandValue]

/-- What comes after it keeps the flags. -/
theorem SetsFlags.append {fl : A64.Flags → BitVec 64 → BitVec 64 → A64.Flags} (h : SetsFlags inst fl oa ob js)
    (hlin : ∀ i, some i ∈ ks → i.isLinear = true) (hs : ∀ o ∈ ks, SparesFlags o) :
    SetsFlags inst fl oa ob (js ++ ks) where
  linear i hi := (List.mem_append.mp hi).elim (h.linear i) (hlin i)
  flags := by
    intro env pc t t' hrun
    rw [runSeq_append, Option.bind_eq_some_iff] at hrun
    obtain ⟨t₁, ht₁, hrest⟩ := hrun
    rw [nzcv_runSeq hs hrest, h.flags ht₁]

end Tails

/-! ### The operand forms -/

/-- The instructions with one operand. -/
def FlagOp.isUnary : FlagOp → Bool
  | .inc | .dec | .neg => true
  | _ => false

/-- The instruction `k` has the one memory operand `op`; with one operand it is both the first and the second. -/
inductive MemoryForm (k : FlagOp) (op : Operand) : Operand → Operand → Prop
  | regMem (r : GpReg) (size : OpSize) (hk : k.isUnary = false) : MemoryForm k op (.reg r size) op
  | memReg (r : GpReg) (size : OpSize) (hk : k.isUnary = false) : MemoryForm k op op (.reg r size)
  | memImm (v : BitVec 64) (size : OpSize) (hk : k.isUnary = false) : MemoryForm k op op (.imm v size)
  | unary (hk : k.isUnary = true) : MemoryForm k op op op

/-- The displacement left to the load of the operand is one that the load can have. -/
def Operand.LoadFits (op : Operand) : Prop :=
  Fits op.memSize.bytes op.leftover

instance (op : Operand) : Decidable op.LoadFits :=
  inferInstanceAs (Decidable (Fits _ _))

theorem isMem_of_not_loadFits {op : Operand} (h : ¬ op.LoadFits) : op.isMem = true := by
  cases op with
  | mem => rfl
  | _ => exact absurd (fits_zero _) h

theorem MemoryForm.not_loadFits {k : FlagOp} {op oa ob : Operand} (h : MemoryForm k op oa ob)
    (hunfit : ¬ (oa.LoadFits ∧ ob.LoadFits)) : ¬ op.LoadFits := by
  intro hfit
  apply hunfit
  cases h with
  | regMem => exact ⟨fits_zero _, hfit⟩
  | memReg => exact ⟨hfit, fits_zero _⟩
  | memImm => exact ⟨hfit, fits_zero _⟩
  | unary => exact ⟨hfit, hfit⟩

/-- The load of the memory operand `op`, then code that sets the flags of `k` from `X17` and the other operand. -/
structure FlagCode (inst : Inst) (k : FlagOp) (op oa ob : Operand) (is : List (Option Insn)) : Prop where
  form : MemoryForm k op oa ob
  isMem : op.isMem = true
  code : ∃ is₁ js, LoadCode inst op is₁ ∧ (∀ o ∈ is₁, SparesFlags o) ∧ SetsFlags inst k.hostFlags oa ob js ∧
    is = is₁ ++ js

theorem emits_load (m : Operand) : Emits p (loadOperand m inst m.memSize) fun l is =>
    l = m.leftover ∧ LoadCode inst m is ∧ ∀ o ∈ is, SparesFlags o := by
  have hkeeps : KeepsFlags (loadOperand m inst m.memSize) := inferInstance
  exact ((emits_loadOperand_code m inst).and (hkeeps.emits p)).mono fun _ _ h => ⟨h.1.1, h.1.2, h.2⟩

/-- The address once more. -/
theorem emits_address (m : Operand) : Emits p (addrIntoXtmp m inst 16) fun l is =>
    l = m.leftover ∧ (∀ i, some i ∈ is → i.isLinear = true) ∧ ∀ o ∈ is, SparesFlags o := by
  have hkeeps : KeepsFlags (addrIntoXtmp m inst 16) := inferInstance
  refine ((emits_memAddr m inst).and (hkeeps.emits p)).mono ?_
  rintro l is ⟨⟨hl, haddr, -⟩, hs⟩
  obtain ⟨t, ht⟩ := haddr default 0 default
  exact ⟨hl, isLinear_of_runSeq ht, hs⟩

theorem emits_store (l : BitVec 32) (size : OpSize) : Emits p (storeSized 17 16 l size) fun _ is =>
    (∀ i, some i ∈ is → i.isLinear = true) ∧ ∀ o ∈ is, SparesFlags o := by
  have hkeeps : KeepsFlags (storeSized 17 16 l size) := inferInstance
  refine ((emits_storeSized_word size l 17).and (hkeeps.emits p)).mono ?_
  rintro - is ⟨rfl, hs⟩
  exact ⟨fun i hi => isLinear_ldstUoffWord (List.mem_singleton.mp hi), hs⟩

section Forms

variable {k : FlagOp} {alu : Alu} (hfl : alu.flags = k.hostFlags) {size sz : OpSize} {rd rb : Reg} {m : Operand}
  (hm : m.isMem = true)
include hfl hm

theorem emits_regMemOp_flags (hk : k.isUnary = false) {emit : Reg → LiftM Unit} {r : GpReg}
    (h : Emits p (emit 17#5) fun _ is => Combines alu size rd (hostReg r) 17#5 is) :
    Emits p (regMemOp inst m emit) fun _ is => FlagCode inst k m (.reg r sz) m is := by
  refine Emits.bind ((emits_load m).mono ?_)
  rintro l is ⟨-, hload, hs⟩
  refine h.mono fun _ js hc => ⟨.regMem r sz hk, hm, is, js, hload, hs, ?_, rfl⟩
  rw [← hfl]
  exact hc.setsFlags (fun t => rfl) fun t => (if_pos hm).symm

/-- The result goes back to memory. -/
theorem emits_memRegOp_flags {emit : LiftM Unit} {ob : Operand} (hform : MemoryForm k m m ob)
    (hrb : ∀ t : State, t.x rb = loadedValue inst t ob)
    (h : Emits p emit fun _ is => Combines alu size 17#5 17#5 rb is) :
    Emits p (memRegOp inst m emit) fun _ is => FlagCode inst k m m ob is := by
  refine Emits.bind ((emits_load m).mono ?_)
  rintro l is ⟨-, hload, hs⟩
  refine Emits.bind (h.mono fun _ js hc => (emits_store l m.memSize).mono ?_)
  rintro - ks ⟨hlin, hspare⟩
  refine ⟨hform, hm, is, js ++ ks, hload, hs, ?_, rfl⟩
  rw [← hfl]
  exact (hc.setsFlags (fun t => (if_pos hm).symm) hrb).append hlin hspare

theorem emits_memImmOp_flags (hk : k.isUnary = false) {emit : LiftM Unit} {v : BitVec 64}
    (h : Emits p emit fun _ is => Combines alu size rd 17#5 16#5 is) :
    Emits p (memImmOp inst m v emit) fun _ is => FlagCode inst k m m (.imm v sz) is := by
  refine Emits.bind ((emits_load m).mono ?_)
  rintro l is ⟨-, hload, hs⟩
  refine Emits.bind (emits_loadConst64 (by decide) v fun is₁ hc => Emits.bind (h.mono fun _ js hcomb =>
    Emits.bind ((emits_address m).mono ?_)))
  rintro l' is₂ ⟨-, hlin₂, hs₂⟩
  refine (emits_store l' m.memSize).mono ?_
  rintro - ks ⟨hlin, hspare⟩
  refine ⟨.memImm v sz hk, hm, is, (is₁ ++ js ++ is₂) ++ ks, hload, hs, ?_, by simp⟩
  rw [← hfl]
  exact ((SetsFlags.immediate hm hc hcomb).append hlin₂ hs₂).append hlin hspare

end Forms

/-! ### The lift functions -/

/-- The forms with a memory operand that `ADD`, `SUB`, `AND`, `OR` and `XOR` share. -/
theorem emits_memForms_flags {k : FlagOp} {alu : Alu} (hfl : alu.flags = k.hostFlags) (hk : k.isUnary = false)
    (op : Op) {emit : Reg → Reg → Reg → OpSize → LiftM Unit} (hbin : Binary p alu emit) {oa ob : Operand} :
    Emits p (match oa, ob with
      | .reg rd size, .mem m =>
        regMemOp inst (.mem m) fun r => emit (hostReg rd) (hostReg rd) r size
      | .reg rd size, .ripRel d s =>
        regMemOp inst (.ripRel d s) fun r => emit (hostReg rd) (hostReg rd) r size
      | .mem m, .reg rs _ => memRegOp inst (.mem m) (emit 17 17 (hostReg rs) m.size)
      | .ripRel d s, .reg rs _ => memRegOp inst (.ripRel d s) (emit 17 17 (hostReg rs) s)
      | .mem m, .imm imm _ => memImmOp inst (.mem m) imm (emit 17 17 16 m.size)
      | .ripRel d s, .imm imm _ => memImmOp inst (.ripRel d s) imm (emit 17 17 16 s)
      | _, _ => unsupported op : LiftM Unit)
      fun _ is => ∃ m, FlagCode inst k m oa ob is := by
  have hr : ∀ r : GpReg, hostReg r ≠ 31#5 := hostReg_ne_31
  have h17 : (17#5 : Reg) ≠ 31#5 := by decide
  have h16 : (16#5 : Reg) ≠ 31#5 := by decide
  cases oa with
  | reg rd size =>
    cases ob with
    | mem m => exact (emits_regMemOp_flags hfl rfl hk (hbin (hr rd) (hr rd) h17)).mono fun _ _ h => ⟨_, h⟩
    | ripRel d s => exact (emits_regMemOp_flags hfl rfl hk (hbin (hr rd) (hr rd) h17)).mono fun _ _ h => ⟨_, h⟩
    | _ => exact Emits.fail
  | mem m =>
    cases ob with
    | reg rs sz =>
      exact (emits_memRegOp_flags hfl rfl (.memReg rs sz hk) (fun t => rfl) (hbin h17 h17 (hr rs))).mono
        fun _ _ h => ⟨_, h⟩
    | imm v sz => exact (emits_memImmOp_flags hfl rfl hk (hbin h17 h17 h16)).mono fun _ _ h => ⟨_, h⟩
    | _ => exact Emits.fail
  | ripRel d s =>
    cases ob with
    | reg rs sz =>
      exact (emits_memRegOp_flags hfl rfl (.memReg rs sz hk) (fun t => rfl) (hbin h17 h17 (hr rs))).mono
        fun _ _ h => ⟨_, h⟩
    | imm v sz => exact (emits_memImmOp_flags hfl rfl hk (hbin h17 h17 h16)).mono fun _ _ h => ⟨_, h⟩
    | _ => exact Emits.fail
  | _ => exact Emits.fail

/-- `TEST` writes the flags only. -/
def Alu.test : Alu where
  result _ a b := a &&& b
  flags _ a b := A64.logicFlags (a &&& b)

theorem combines_test {ra rb : Reg} (hra : ra ≠ 31#5) (hrb : rb ≠ 31#5) :
    Combines .test .b8 31#5 ra rb [some (.logicShift .ands rb 0 ra 31)] := by
  intro env pc s
  have hand : execLogic .ands (s.readX ra) (s.readX rb <<< 0) = s.x ra &&& s.x rb := by
    rw [BitVec.shiftLeft_zero, s.readX_of_ne _ hra, s.readX_of_ne _ hrb]
    rfl
  show some { s.writeX 31 (execLogic .ands (s.readX ra) (s.readX rb <<< 0)) with
    nzcv := A64.logicFlags (execLogic .ands (s.readX ra) (s.readX rb <<< 0)) } = _
  rw [hand]
  rfl

/-- `ADC` and `SBB` with a memory operand load it, whether the load fits or not. -/
def AddcLoad (inst : Inst) (add : Bool) (src : Operand) (is : List (Option Insn)) : Prop :=
  ∃ r size is₁ js, inst.operand0 = some (.reg r size) ∧ LoadCode inst src is₁ ∧ (∀ o ∈ is₁, SparesFlags o) ∧
    Combines (.adder (!add) (·.c)) size (hostReg r) (hostReg r) 17#5 js ∧ is = is₁ ++ js

theorem emits_liftAddc_load (add : Bool) {src : Operand} (h1 : inst.operand1 = some src) (hm : src.isMem = true) :
    Emits p (liftAddc inst add) fun _ is => AddcLoad inst add src is := by
  unfold liftAddc
  rw [h1]
  refine Emits.bind (Emits.okOr fun dst h0 => Emits.bind (Emits.pure ?_))
  simp only [List.nil_append]
  cases dst with
  | reg r size =>
    have hload : Emits p (operandIntoX17 inst src) fun _ is =>
        LoadCode inst src is ∧ ∀ o ∈ is, SparesFlags o := by
      have hcode := @emits_load p inst src
      cases src with
      | mem m =>
        refine Emits.bind (hcode.mono fun _ is h => Emits.pure ?_)
        rw [List.append_nil]
        exact h.2
      | ripRel d s =>
        refine Emits.bind (hcode.mono fun _ is h => Emits.pure ?_)
        rw [List.append_nil]
        exact h.2
      | _ => cases hm
    have htail : Emits p (do operandIntoX17 inst src; emitAddcWord add (hostReg r); maskB4 size (hostReg r)
        : LiftM Unit) fun _ is => AddcLoad inst add src is :=
      Emits.bind (hload.mono fun _ is h => (emits_addcTail add r size).mono fun _ js hc =>
        ⟨r, size, is, js, h0, h.1, h.2, hc, rfl⟩)
    cases src with
    | mem m => exact htail
    | ripRel d s => exact htail
    | _ => cases hm
  | _ => exact Emits.fail

section Lifts

variable {oa ob : Operand}

theorem emits_unaryOp_flags {k : FlagOp} {alu : Alu} (hfl : alu.flags = k.hostFlags) (hk : k.isUnary = true)
    (h0 : inst.operand0 = some oa) (hm : oa.isMem = true) {emit : Reg → LiftM Unit} (hemit : Unary p alu emit)
    (op : Op) : Emits p (unaryOp inst emit op) fun _ is => ∃ m, FlagCode inst k m oa oa is := by
  have hcomb : ∀ size : OpSize, Emits p (do emit 17; maskB4 size 17 : LiftM Unit)
      fun _ is => Combines alu size 17#5 17#5 17#5 is := by
    intro size
    have h17 : (17#5 : Reg) ≠ 31#5 := by decide
    exact Emits.bind (hemit h17 fun i hi => emits_maskB4 h17 fun js hjs => Combines.mask h17 hi hjs)
  unfold unaryOp
  rw [h0]
  refine Emits.bind (Emits.pure ?_)
  simp only [List.nil_append]
  cases oa with
  | mem m =>
    exact (emits_memRegOp_flags hfl rfl (.unary hk) (fun t => rfl) (hcomb m.size)).mono fun _ _ h => ⟨_, h⟩
  | ripRel d s =>
    exact (emits_memRegOp_flags hfl rfl (.unary hk) (fun t => rfl) (hcomb s)).mono fun _ _ h => ⟨_, h⟩
  | _ => cases hm

variable (h0 : inst.operand0 = some oa) (h1 : inst.operand1 = some ob)
  (hm : oa.isMem = true ∨ ob.isMem = true)
include h0 h1 hm

theorem emits_liftArith_flags {k : FlagOp} (kind : ArithKind) (hfl : kind.alu.flags = k.hostFlags)
    (hk : k.isUnary = false) : Emits p (liftArith inst kind) fun _ is => ∃ m, FlagCode inst k m oa ob is := by
  unfold liftArith
  rw [h0, h1]
  refine Emits.bind (Emits.pure (Emits.bind (Emits.pure ?_)))
  simp only [List.nil_append]
  have hforms := @emits_memForms_flags p inst _ _ hfl hk inst.op _ (binary_emitArithRr kind) oa ob
  cases oa with
  | reg rd size =>
    cases ob with
    | reg | imm => simp [Operand.isMem] at hm
    | _ => exact hforms
  | mem m => cases ob <;> exact hforms
  | ripRel d s => cases ob <;> exact hforms
  | _ => exact Emits.fail

theorem emits_liftBitop_flags {k : FlagOp} (op : BitOp) (hfl : op.alu.flags = k.hostFlags)
    (hk : k.isUnary = false) : Emits p (liftBitop inst op) fun _ is => ∃ m, FlagCode inst k m oa ob is := by
  unfold liftBitop
  rw [h0, h1]
  refine Emits.bind (Emits.pure (Emits.bind (Emits.pure ?_)))
  simp only [List.nil_append]
  have hforms := @emits_memForms_flags p inst _ _ hfl hk inst.op _ (binary_emitBitopRr op) oa ob
  cases oa with
  | reg rd size =>
    cases ob with
    | reg | imm => simp [Operand.isMem] at hm
    | _ => exact hforms
  | mem m => cases ob <;> exact hforms
  | ripRel d s => cases ob <;> exact hforms
  | _ => exact Emits.fail

theorem emits_liftXor_flags : Emits p (liftXor inst) fun _ is => ∃ m, FlagCode inst .xor m oa ob is := by
  unfold liftXor
  rw [h0, h1]
  refine Emits.bind (Emits.pure (Emits.bind (Emits.pure ?_)))
  simp only [List.nil_append]
  have hforms := @emits_memForms_flags p inst .xor _ rfl rfl .xor _ binary_emitXorRr oa ob
  cases oa with
  | reg rd size =>
    cases ob with
    | reg | imm => simp [Operand.isMem] at hm
    | _ => exact hforms
  | mem m => cases ob <;> exact hforms
  | ripRel d s => cases ob <;> exact hforms
  | _ => exact Emits.fail

theorem emits_liftTest_flags : Emits p (liftTest inst) fun _ is => ∃ m, FlagCode inst .test m oa ob is := by
  have hmr : ∀ {m : Operand} {r : GpReg} {sz : OpSize}, m.isMem = true →
      Emits p (testMemReg inst m r true) fun _ is => ∃ op, FlagCode inst .test op m (.reg r sz) is := by
    intro m r sz hm
    refine Emits.bind ((emits_load m).mono ?_)
    rintro l is ⟨-, hload, hs⟩
    exact emits_ands64 ⟨m, .memReg r sz rfl, hm, is, _, hload, hs,
      (combines_test (by decide) (hostReg_ne_31 r)).setsFlags (fun t => (if_pos hm).symm) fun t => rfl, rfl⟩
  have hrm : ∀ {m : Operand} {r : GpReg} {sz : OpSize}, m.isMem = true →
      Emits p (testMemReg inst m r false) fun _ is => ∃ op, FlagCode inst .test op (.reg r sz) m is := by
    intro m r sz hm
    refine Emits.bind ((emits_load m).mono ?_)
    rintro l is ⟨-, hload, hs⟩
    exact emits_ands64 ⟨m, .regMem r sz rfl, hm, is, _, hload, hs,
      (combines_test (hostReg_ne_31 r) (by decide)).setsFlags (fun t => rfl) fun t => (if_pos hm).symm, rfl⟩
  have hmi : ∀ {m : Operand} {v : BitVec 64} {sz : OpSize}, m.isMem = true →
      Emits p (testMemImm inst m v) fun _ is => ∃ op, FlagCode inst .test op m (.imm v sz) is := by
    intro m v sz hm
    refine Emits.bind ((emits_load m).mono ?_)
    rintro l is ⟨-, hload, hs⟩
    exact Emits.bind (emits_loadConst64 (by decide) v fun is₁ hc => emits_ands64 ⟨m, .memImm v sz rfl, hm, is, _,
      hload, hs, SetsFlags.immediate hm hc (combines_test (by decide) (by decide)), rfl⟩)
  unfold liftTest
  rw [h0, h1]
  refine Emits.bind (Emits.pure (Emits.bind (Emits.pure ?_)))
  simp only [List.nil_append]
  cases oa with
  | reg ra sa =>
    cases ob with
    | reg | imm => simp [Operand.isMem] at hm
    | mem m => exact hrm rfl
    | ripRel d s => exact hrm rfl
    | _ => exact Emits.fail
  | mem m =>
    cases ob with
    | reg rb sb => exact hmr rfl
    | imm v sb => exact hmi rfl
    | _ => exact Emits.fail
  | ripRel d s =>
    cases ob with
    | reg rb sb => exact hmr rfl
    | imm v sb => exact hmi rfl
    | _ => exact Emits.fail
  | _ => exact Emits.fail

/-- The source is the only memory operand. -/
theorem emits_liftAddc_flags {k : FlagOp} (add : Bool) (hfl : (Alu.adder (!add) (·.c)).flags = k.hostFlags)
    (hk : k.isUnary = false) : Emits p (liftAddc inst add) fun _ is => ∃ m, FlagCode inst k m oa ob is := by
  by_cases hb : ob.isMem = true
  · refine (emits_liftAddc_load add h1 hb).mono ?_
    rintro - is ⟨r, size, is₁, js, hdst, hload, hs, hc, rfl⟩
    obtain rfl : oa = .reg r size := Option.some.inj (h0.symm.trans hdst)
    refine ⟨ob, .regMem r size hk, hb, is₁, js, hload, hs, ?_, rfl⟩
    rw [← hfl]
    exact hc.setsFlags (fun t => rfl) fun t => (if_pos hb).symm
  · have ha : oa.isMem = true := hm.resolve_right hb
    unfold liftAddc
    rw [h0, h1]
    refine Emits.bind (Emits.pure (Emits.bind (Emits.pure ?_)))
    cases oa with
    | mem | ripRel => exact Emits.fail
    | _ => cases ha

end Lifts

/-- The code of every instruction that sets the flags, when it has a memory operand. -/
theorem emits_flagOp_flags {legacy32 : Bool} {k : FlagOp} {oa ob : Operand} (hop : inst.op = k.op)
    (h0 : inst.operand0 = some oa) (h1 : k.second inst = some ob) (hm : oa.isMem = true ∨ ob.isMem = true) :
    Emits p (lift legacy32 inst) fun _ is => ∃ m, FlagCode inst k m oa ob is := by
  have hself : k.second inst = inst.operand0 → ob = oa ∧ oa.isMem = true := by
    intro h
    obtain rfl : ob = oa := Option.some.inj (h1.symm.trans (h.trans h0))
    exact ⟨rfl, hm.elim id id⟩
  cases k with
  | add =>
    rw [show lift legacy32 inst = liftArith inst .add by rw [lift, hop]; rfl]
    exact emits_liftArith_flags h0 h1 hm .add rfl rfl
  | sub =>
    rw [show lift legacy32 inst = liftArith inst .sub by rw [lift, hop]; rfl]
    exact emits_liftArith_flags h0 h1 hm .sub rfl rfl
  | inc =>
    obtain ⟨rfl, ha⟩ := hself rfl
    rw [show lift legacy32 inst = liftIncDec inst true by rw [lift, hop]; rfl]
    exact emits_unaryOp_flags rfl rfl h0 ha (unary_emitIncDec true) _
  | dec =>
    obtain ⟨rfl, ha⟩ := hself rfl
    rw [show lift legacy32 inst = liftIncDec inst false by rw [lift, hop]; rfl]
    exact emits_unaryOp_flags rfl rfl h0 ha (unary_emitIncDec false) _
  | neg =>
    obtain ⟨rfl, ha⟩ := hself rfl
    rw [show lift legacy32 inst = liftNeg inst by rw [lift, hop]; rfl]
    exact emits_unaryOp_flags rfl rfl h0 ha unary_emitNeg _
  | and =>
    rw [show lift legacy32 inst = liftBitop inst .and by rw [lift, hop]; rfl]
    exact emits_liftBitop_flags h0 h1 hm .and rfl rfl
  | or =>
    rw [show lift legacy32 inst = liftBitop inst .or by rw [lift, hop]; rfl]
    exact emits_liftBitop_flags h0 h1 hm .or rfl rfl
  | xor =>
    rw [show lift legacy32 inst = liftXor inst by rw [lift, hop]; rfl]
    exact emits_liftXor_flags h0 h1 hm
  | test =>
    rw [show lift legacy32 inst = liftTest inst by rw [lift, hop]; rfl]
    exact emits_liftTest_flags h0 h1 hm
  | adc =>
    rw [show lift legacy32 inst = liftAddc inst true by rw [lift, hop]; rfl]
    exact emits_liftAddc_flags h0 h1 hm true rfl rfl
  | sbb =>
    rw [show lift legacy32 inst = liftAddc inst false by rw [lift, hop]; rfl]
    exact emits_liftAddc_flags h0 h1 hm false rfl rfl

/-! ### A result of zero -/

/-- The result that the flags are about, when no carry comes in. -/
def FlagOp.result {w : Nat} (k : FlagOp) (a b : BitVec w) : BitVec w :=
  match k with
  | .add | .adc => a + b
  | .sub | .sbb => a - b
  | .inc => a + 1#w
  | .dec => a - 1#w
  | .neg => 0#w - a
  | .and | .test => a &&& b
  | .or => a ||| b
  | .xor => a ^^^ b

/-- `AND`, `OR` and `XOR` do not write the host's flags. -/
def FlagOp.writesFlags : FlagOp → Bool
  | .and | .or | .xor => false
  | _ => true

section Result

variable {w : Nat} (k : FlagOp)

theorem zf_guestFlags (a b : BitVec w) : (k.guestFlags a b false).zf = true ↔ k.result a b = 0 := by
  have hadd : (X86.addFlags a b false).zf = true ↔ a + b = 0 := by
    rw [← addc_false]
    exact X86.holds_e_addFlags a b false
  have hsub : ∀ a b : BitVec w, (X86.subFlags a b false).zf = true ↔ a - b = 0 := by
    intro a b
    rw [← X86.subc_false]
    exact X86.holds_e_subFlags a b false
  cases k with
  | add | adc => exact hadd
  | sub | sbb => exact hsub a b
  | inc => exact (zf_incFlags a false).trans eq_neg_iff_add_eq_zero
  | dec => exact (zf_decFlags a false).trans (sub_eq_zero_iff a 1#w).symm
  | neg => exact hsub 0 a
  | _ => exact beq_iff_eq

/-- The host's carry in is clear for an addition and set for a subtraction. -/
theorem z_hostFlags (hk : k.writesFlags = true) {f : A64.Flags} (hc : f.c = decide (k = .sbb)) (a b : BitVec 64) :
    (k.hostFlags f a b).z = true ↔ k.result a b = 0 := by
  have hadd : ∀ {c : Bool}, c = false → ∀ a b : BitVec 64, (A64.addFlags a b c).z = true ↔ a + b = 0 := by
    rintro c rfl a b
    rw [← addc_false]
    exact beq_iff_eq
  have hsub : ∀ {c : Bool}, c = true → ∀ a b : BitVec 64, (A64.addFlags a (~~~b) c).z = true ↔ a - b = 0 := by
    rintro c rfl a b
    rw [← addc_not_true]
    exact beq_iff_eq
  cases k with
  | and | or | xor => cases hk
  | add => exact hadd rfl a b
  | adc => exact hadd hc a b
  | sub => exact hsub rfl a b
  | sbb => exact hsub hc a b
  | inc => exact hadd rfl a 1
  | dec => exact hsub rfl a 1
  | neg => exact hsub rfl 0 a
  | test => exact beq_iff_eq

omit k in
theorem setWidth_addc (hw : w ≤ 64) (a b : BitVec 64) (c : Bool) :
    (addc a b c).setWidth w = addc (a.setWidth w) (b.setWidth w) c := by
  rw [addc, addc, BitVec.setWidth_add _ _ hw, BitVec.setWidth_add _ _ hw, BitVec.setWidth_ofNat_of_le hw]

theorem setWidth_result (hw : w ≤ 64) (a b : BitVec 64) :
    k.result (a.setWidth w) (b.setWidth w) = (k.result a b).setWidth w := by
  have hadd : ∀ a b : BitVec 64, a.setWidth w + b.setWidth w = (a + b).setWidth w := fun a b =>
    (BitVec.setWidth_add a b hw).symm
  have hsub : ∀ a b : BitVec 64, a.setWidth w - b.setWidth w = (a - b).setWidth w := by
    intro a b
    rw [BitVec.sub_eq_add_neg, BitVec.sub_eq_add_neg, ← BitVec.setWidth_neg_of_le hw]
    exact hadd a (-b)
  have hone : (1#64).setWidth w = 1#w := setWidth_one
  have hzero : (0#64).setWidth w = 0#w := BitVec.setWidth_zero ..
  cases k with
  | add | adc => exact hadd a b
  | sub | sbb => exact hsub a b
  | inc =>
    show a.setWidth w + 1#w = _
    rw [← hone]
    exact hadd a 1
  | dec =>
    show a.setWidth w - 1#w = _
    rw [← hone]
    exact hsub a 1
  | neg =>
    show 0#w - a.setWidth w = _
    rw [← hzero]
    exact hsub 0 a
  | and | test => exact BitVec.setWidth_and.symm
  | or => exact BitVec.setWidth_or.symm
  | xor => exact BitVec.setWidth_xor.symm

variable {k}

theorem result_comm_eq_zero (hk : k.isUnary = false) (a b : BitVec 64) : k.result a b = 0 ↔ k.result b a = 0 := by
  cases k with
  | inc | dec | neg => cases hk
  | add | adc => exact iff_of_eq (congrArg (· = 0) (BitVec.add_comm a b))
  | sub | sbb => exact (sub_eq_zero_iff a b).trans (eq_comm.trans (sub_eq_zero_iff b a).symm)
  | and | test => exact iff_of_eq (congrArg (· = 0) (BitVec.and_comm a b))
  | or => exact iff_of_eq (congrArg (· = 0) (BitVec.or_comm a b))
  | xor => exact iff_of_eq (congrArg (· = 0) (BitVec.xor_comm a b))

theorem result_of_isUnary (hk : k.isUnary = true) (a b c : BitVec w) : k.result a b = k.result a c := by
  cases k <;> first | rfl | cases hk

end Result

/-! ### A state in which the load misleads -/

/-- The value with which the result is zero, if the other operand is `c`. -/
def FlagOp.zeroWith (k : FlagOp) (c : BitVec 64) : BitVec 64 :=
  match k with
  | .add | .adc => -c
  | .sub | .sbb => c
  | .inc => -1
  | .dec => 1
  | _ => 0

/-- The value of the other operand, if it is a register. -/
def FlagOp.partner : FlagOp → BitVec 64
  | .sub | .sbb => 1
  | _ => -1

section ZeroWith

variable {k : FlagOp} (hk : k.writesFlags = true)
include hk

theorem result_zeroWith (c : BitVec 64) : k.result (k.zeroWith c) c = 0 := by
  cases k with
  | and | or | xor => cases hk
  | add | adc => exact neg_add_cancel c
  | sub | sbb => exact sub_self c
  | inc => exact neg_add_cancel 1#64
  | dec => exact sub_self 1#64
  | neg => exact sub_self 0#64
  | test => exact BitVec.zero_and

/-- A value with another low byte. -/
theorem result_ne_zero {x c : BitVec 64} (hx : x.setWidth 8 = (~~~k.zeroWith c).setWidth 8)
    (hc : k = .test → c.setWidth 8 ≠ 0) : k.result x c ≠ 0 := by
  intro h0
  have hne : x ≠ k.zeroWith c := by
    rintro rfl
    exact setWidth_not_ne _ hx.symm
  cases k with
  | and | or | xor => cases hk
  | add | adc => exact hne (eq_neg_of_add_eq_zero_left h0)
  | sub | sbb => exact hne (sub_eq_zero.mp h0)
  | inc => exact hne (eq_neg_of_add_eq_zero_left h0)
  | dec => exact hne (sub_eq_zero.mp h0)
  | neg => exact hne (sub_eq_zero.mp h0).symm
  | test =>
    have hones : (~~~FlagOp.test.zeroWith c).setWidth 8 = BitVec.allOnes 8 := by
      show (~~~0#64).setWidth 8 = _
      decide
    have hlow : (x &&& c).setWidth 8 = (0#64).setWidth 8 := congrArg (fun y => y.setWidth 8) h0
    rw [BitVec.setWidth_and, hx, hones, BitVec.allOnes_and, BitVec.setWidth_zero] at hlow
    exact hc rfl hlow

end ZeroWith

/-- The value that goes with a register is `0` or `1`. -/
theorem zeroExtended_zeroWith_partner {k : FlagOp} (hk : k.isUnary = false) (size : OpSize) :
    size.zeroExtended (k.zeroWith k.partner) = k.zeroWith k.partner := by
  cases k with
  | inc | dec | neg => cases hk
  | _ => cases size <;> decide

/-- The memory operand holds `v` and every register `r`.  `X17` and the rest of memory are the complement of `v`, and
the carry is as it must be before `k`. -/
def misleading (inst : Inst) (k : FlagOp) (op : Operand) (v r : BitVec 64) : State :=
  valueAt inst op v ((~~~v).setWidth 8) { (default : State) with
    x := fun i => if i = 17#5 then ~~~v else r
    nzcv := { (default : A64.Flags) with c := decide (k = .sbb) } }

section Misleading

variable {k : FlagOp} {op : Operand} (v r : BitVec 64)

theorem hostValue_misleading_reg (q : GpReg) (size : OpSize) :
    hostValue inst (misleading inst k op v r) (.reg q size) = r :=
  if_neg (hostReg_ne_17 q)

theorem hostValue_misleading (hm : op.isMem = true) :
    hostValue inst (misleading inst k op v r) op = op.memSize.zeroExtended v := by
  rw [hostValue_of_isMem hm]
  exact memValue_valueAt ..

end Misleading

/-- The load leaves another low byte in `X17`. -/
theorem exists_loaded_misleading {k : FlagOp} {op : Operand} {v r : BitVec 64} {ws : List Word}
    {is js : List (Option Insn)} {s₁ : State} (hload : LoadCode inst op is) (hs : ∀ o ∈ is, SparesFlags o)
    (hunfit : ¬ op.LoadFits) (hlin : ∀ i, some i ∈ js → i.isLinear = true) (hws : ws.map decode = is ++ js)
    (hexec : Exec default ws (misleading inst k op v r) s₁) :
    ∃ pc t, runSeq default pc js t = some s₁ ∧ (t.x 17#5).setWidth 8 = (~~~v).setWidth 8 ∧
      (∀ i, i ≠ 17#5 → i ≠ 16#5 → t.x i = r) ∧ t.nzcv.c = decide (k = .sbb) := by
  have hall : ∀ i, some i ∈ is ++ js → i.isLinear = true := fun i hi =>
    (List.mem_append.mp hi).elim (hload.isLinear i) (hlin i)
  obtain ⟨t, ht, hrest⟩ := exec_append hws hall hexec
  have hmem : ∀ b, ¬ InRange (effectiveAddress inst (misleading inst k op v r) op) 16 b →
      (misleading inst k op v r).mem b = (~~~v).setWidth 8 := by
    intro b hb
    rw [misleading, effectiveAddress_valueAt] at hb
    exact mem_valueAt hb
  obtain ⟨hlow, -, hregs⟩ := hload.misloads_byte (fun _ _ => rfl) hunfit rfl hmem ht
  refine ⟨is.length, t, hrest, hlow, fun i h17 h16 => (hregs i h17 h16).trans (if_neg h17), ?_⟩
  rw [nzcv_runSeq hs ht]
  rfl

namespace FlagCode

variable {k : FlagOp} {op oa ob : Operand} {ws : List Word}

theorem not_zero {v r : BitVec 64} (h : FlagCode inst k op oa ob (ws.map decode)) (hk : k.writesFlags = true)
    (hunfit : ¬ op.LoadFits)
    (hne : ∀ t : State, (t.x 17#5).setWidth 8 = (~~~v).setWidth 8 → (∀ i, i ≠ 17#5 → i ≠ 16#5 → t.x i = r) →
      k.result (loadedValue inst t oa) (loadedValue inst t ob) ≠ 0) {s₁ : State}
    (hexec : Exec default ws (misleading inst k op v r) s₁) : s₁.nzcv.z = false := by
  obtain ⟨is₁, js, hload, hs, htail, his⟩ := h.code
  obtain ⟨pc, t, hrest, hlow, hregs, hcarry⟩ := exists_loaded_misleading hload hs hunfit htail.linear his hexec
  rw [htail.flags hrest, ← Bool.not_eq_true, z_hostFlags k hk hcarry]
  exact hne t hlow hregs

/-- With a displacement that does not fit, there is a state in which the result is zero and the host's flags say that
it is not.  The immediate of a `TEST` must select a bit of the low byte. -/
theorem exists_misled (h : FlagCode inst k op oa ob (ws.map decode)) (hk : k.writesFlags = true)
    (hunfit : ¬ op.LoadFits)
    (htest : k = .test → ∀ c size, ob = .imm c size → c.setWidth 8 ≠ 0) :
    ∃ s, (k.guestFlags ((hostValue inst s oa).setWidth oa.memSize.bits)
        ((hostValue inst s ob).setWidth oa.memSize.bits) false).zf = true ∧
      ∀ s₁, Exec default ws s s₁ → s₁.nzcv.z = false := by
  have hm := h.isMem
  have hbits : ∀ size : OpSize, size.bits ≤ 64 := by
    intro size
    cases size <;> decide
  have hpartner : k = .test → k.partner.setWidth 8 ≠ 0 := by
    rintro rfl
    decide
  have hregs : ∀ {t : State} {r : BitVec 64} {q : GpReg} {size : OpSize},
      (∀ i, i ≠ 17#5 → i ≠ 16#5 → t.x i = r) → loadedValue inst t (.reg q size) = r :=
    fun h => h _ (hostReg_ne_17 _) (hostReg_ne_16 _)
  have hloaded : ∀ t : State, loadedValue inst t op = t.x 17#5 := fun t => if_pos hm
  -- the memory operand comes first
  have hfirst : ∀ c : BitVec 64, k.result ((op.memSize.zeroExtended (k.zeroWith c)).setWidth op.memSize.bits)
      (c.setWidth op.memSize.bits) = 0 := by
    intro c
    rw [truncate_zeroExtended, setWidth_result k (hbits _), result_zeroWith hk]
    exact BitVec.setWidth_zero ..
  cases h.form with
  | regMem q size hbin =>
    refine ⟨misleading inst k op (k.zeroWith k.partner) k.partner, ?_, fun s₁ hexec =>
      h.not_zero hk hunfit (fun t hlow hr => ?_) hexec⟩
    · rw [zf_guestFlags, hostValue_misleading_reg, hostValue_misleading _ _ hm, zeroExtended_zeroWith_partner hbin,
        setWidth_result k (hbits _), (result_comm_eq_zero hbin _ _).mpr (result_zeroWith hk _)]
      exact BitVec.setWidth_zero ..
    · rw [hregs hr, hloaded]
      exact fun h0 => result_ne_zero hk hlow hpartner ((result_comm_eq_zero hbin _ _).mp h0)
  | memReg q size hbin =>
    refine ⟨misleading inst k op (k.zeroWith k.partner) k.partner, ?_, fun s₁ hexec =>
      h.not_zero hk hunfit (fun t hlow hr => ?_) hexec⟩
    · rw [zf_guestFlags, hostValue_misleading_reg, hostValue_misleading _ _ hm]
      exact hfirst _
    · rw [hregs hr, hloaded]
      exact result_ne_zero hk hlow hpartner
  | memImm c size hbin =>
    refine ⟨misleading inst k op (k.zeroWith c) 0, ?_, fun s₁ hexec =>
      h.not_zero hk hunfit (fun t hlow _ => ?_) hexec⟩
    · rw [zf_guestFlags, hostValue_misleading _ _ hm]
      exact hfirst c
    · rw [hloaded]
      exact result_ne_zero hk hlow fun ht => htest ht c size rfl
  | unary hone =>
    refine ⟨misleading inst k op (k.zeroWith 0) 0, ?_, fun s₁ hexec =>
      h.not_zero hk hunfit (fun t hlow _ => ?_) hexec⟩
    · rw [zf_guestFlags, hostValue_misleading _ _ hm, result_of_isUnary hone _ _ ((0#64).setWidth _)]
      exact hfirst 0
    · rw [hloaded, result_of_isUnary hone _ _ 0]
      refine result_ne_zero hk hlow ?_
      rintro rfl
      cases hone

/-- `AND`, `OR` and `XOR` leave the flags, whatever is loaded. -/
theorem nzcv_of_spares (h : FlagCode inst k op oa ob (ws.map decode)) (hk : k.writesFlags = false) {env : Env}
    {s s₁ : State} (hexec : Exec env ws s s₁) : s₁.nzcv = s.nzcv := by
  obtain ⟨is₁, js, hload, hs, htail, his⟩ := h.code
  have hlin : ∀ i, some i ∈ is₁ ++ js → i.isLinear = true := fun i hi =>
    (List.mem_append.mp hi).elim (hload.isLinear i) (htail.linear i)
  obtain ⟨t, ht, hrest⟩ := exec_append his hlin hexec
  have hsame : k.hostFlags t.nzcv (loadedValue inst t oa) (loadedValue inst t ob) = t.nzcv := by
    cases k <;> first | rfl | cases hk
  rw [htail.flags hrest, hsame, nzcv_runSeq hs ht]

end FlagCode

end Quantum.Jit
