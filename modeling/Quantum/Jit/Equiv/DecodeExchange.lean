import Quantum.Jit.Equiv.DecodeRow
import Quantum.Jit.Equiv.Exchange

/-!
# The operands of exchanges

The decoder makes `XCHG`, `XADD` and `CMPXCHG` of a register or memory operand and a register, both of one
size (`decodeNext_exchange`).  No other row of its tables makes one of them.
-/

namespace Quantum.Jit

open DecodeM

/-- A form that is an exchange has a destination in a register or in memory, and a register of its size. -/
def Form.ExchangeOk (f : Form) : Prop :=
  f.op.exchange ≠ none → ∃ dst src, f.operand0 = some dst ∧ f.operand1 = some (.reg src dst.memSize) ∧
    ((∃ rd n, dst = .reg rd n) ∨ dst.isMem = true)

theorem IsRm.cases {longMode : Bool} {p : Prefixes} {modrm : Byte} {size : OpSize} {op : Operand}
    (h : IsRm longMode p modrm size op) :
    op.memSize = size ∧ ((∃ rd n, op = .reg rd n) ∨ op.isMem = true) := by
  unfold IsRm at h
  split at h
  · obtain ⟨r, -, rfl⟩ := h
    exact ⟨rfl, .inl ⟨r, size, rfl⟩⟩
  · unfold IsRmMemory at h
    split at h
    · obtain ⟨disp, rfl⟩ := h
      exact ⟨rfl, .inr rfl⟩
    · obtain ⟨m, rfl, -, hsize⟩ := h
      exact ⟨hsize, .inr rfl⟩

/-- Every exchange that the computation makes has the operands of one. -/
class MakesExchange (m : DecodeM Form) : Prop where
  ok : ∀ {bs f rest}, m bs = .ok (f, rest) → f.ExchangeOk

namespace MakesExchange

variable {α : Type}

/-- An operation that is no exchange. -/
theorem make {op : Op} {o₀ o₁ o₂ : Option Operand} (hop : op.exchange = none) :
    MakesExchange (Jit.make op o₀ o₁ o₂) := by
  refine ⟨fun h hex => ?_⟩
  obtain ⟨rfl, -⟩ := pure_ok h
  exact absurd hop hex

theorem make0 {op : Op} (hop : op.exchange = none) : MakesExchange (Jit.make0 op) :=
  make hop

instance : MakesExchange unhandledForm :=
  make0 rfl

theorem bind {m : DecodeM α} {f : α → DecodeM Form} (h : ∀ a, MakesExchange (f a)) :
    MakesExchange (m >>= f) := by
  refine ⟨fun hm => ?_⟩
  obtain ⟨a, rest, -, hf⟩ := bind_ok hm
  exact (h a).ok hf

theorem ite {c : Prop} [Decidable c] {m m' : DecodeM Form} (h : MakesExchange m) (h' : MakesExchange m') :
    MakesExchange (if c then m else m') := by
  split
  · exact h
  · exact h'

/-! ### The tables -/

section Tables

variable {longMode : Bool} {p : Prefixes} {size immSize rmSize : OpSize} {op : Op}

/-- The rows that make exchanges. -/
instance : MakesExchange (rmReg longMode p op size) := by
  refine ⟨fun hm _ => ?_⟩
  obtain ⟨⟨rm, reg⟩, rest, hdec, hm⟩ := bind_ok hm
  obtain ⟨r, rest', hreg, hm⟩ := bind_ok hm
  obtain ⟨g, -, rfl, -⟩ := regOperand_ok hreg
  obtain ⟨rfl, -⟩ := pure_ok hm
  obtain ⟨hrm, -⟩ := decodeModrm_ok hdec
  obtain ⟨hsize, hform⟩ := IsRm.cases hrm
  exact ⟨rm, g, rfl, by rw [show rm.memSize = size from hsize], hform⟩

instance (low3 : Nat) : MakesExchange (xchgAcc longMode p low3) := by
  refine ⟨fun hm _ => ?_⟩
  obtain ⟨r, rest, hreg, hm⟩ := bind_ok hm
  obtain ⟨g, -, rfl, -⟩ := opcodeRegOperand_ok hreg
  obtain ⟨rfl, -⟩ := pure_ok hm
  exact ⟨_, g, rfl, rfl, .inl ⟨_, _, rfl⟩⟩

theorem regRm (hop : op.exchange = none) : MakesExchange (regRm longMode p op size rmSize) :=
  bind fun _ => bind fun _ => make hop

theorem accImm (hop : op.exchange = none) : MakesExchange (accImm op size immSize) :=
  bind fun _ => make hop

theorem immOnly (hop : op.exchange = none) : MakesExchange (immOnly op size immSize) :=
  bind fun _ => make hop

theorem opcodeReg {low3 : Nat} (hop : op.exchange = none) : MakesExchange (opcodeReg p op low3 size) :=
  bind fun _ => make hop

theorem exchange_arithOp (n : Nat) : (arithOp n).exchange = none := by
  unfold arithOp
  split <;> rfl

theorem exchange_group2Op (n : Nat) : (group2Op n).exchange = none := by
  unfold group2Op
  split <;> rfl

theorem decodeArithForm {opcode : Nat} (hop : op.exchange = none) :
    MakesExchange (decodeArithForm longMode p opcode op) := by
  unfold Jit.decodeArithForm
  split <;> first | infer_instance | exact regRm hop | exact accImm hop

instance : MakesExchange (decodeGroup1 longMode p size immSize) :=
  bind fun _ => bind fun _ => make (exchange_arithOp _)

instance (amount : ShiftAmountForm) : MakesExchange (decodeGroup2 longMode p size amount) := by
  refine bind fun (rm, sub) => ?_
  cases amount with
  | one => exact make (exchange_group2Op sub)
  | cl => exact make (exchange_group2Op sub)
  | imm8 => exact bind fun _ => make (exchange_group2Op sub)

instance : MakesExchange (decodeGroup3 longMode p size) := by
  refine bind fun (rm, sub) => ?_
  dsimp only
  split
  iterate 2 exact bind fun _ => make rfl
  all_goals exact make rfl

instance : MakesExchange (decodeGroup4 longMode p) := by
  refine bind fun (rm, sub) => ?_
  dsimp only
  split <;> exact make rfl

instance : MakesExchange (decodeGroup5 longMode p) := by
  refine bind fun (rm, sub) => ?_
  dsimp only
  split <;> exact make rfl

instance : MakesExchange (imulImm longMode p size immSize) :=
  bind fun _ => bind fun _ => bind fun _ => make rfl

instance : MakesExchange (movRmImm longMode p size immSize) :=
  bind fun _ => ite (make0 rfl) (bind fun _ => make rfl)

instance (low3 : Nat) : MakesExchange (movOpcodeReg p low3 size) :=
  bind fun _ => bind fun _ => make rfl

instance : MakesExchange (popRm longMode p) :=
  bind fun _ => ite (make0 rfl) (make rfl)

instance (opcode : Nat) : MakesExchange (decodePrimary longMode p opcode) := by
  unfold decodePrimary
  refine ite (decodeArithForm (exchange_arithOp _)) (ite (opcodeReg rfl) (ite (opcodeReg rfl)
    (ite (opcodeReg rfl) (ite (opcodeReg rfl) (ite (immOnly rfl) (ite inferInstance (ite inferInstance
      (ite inferInstance ?_))))))))
  split
  all_goals first
    | infer_instance
    | exact make0 rfl
    | exact immOnly rfl
    | exact regRm rfl
    | exact accImm rfl
    | exact make rfl
    | exact bind fun _ => make rfl
    | exact make0 (by split <;> rfl)

theorem xmmRm (hop : op.exchange = none) : MakesExchange (xmmRm longMode p op size rmSize) :=
  bind fun _ => make hop

theorem rmXmm (hop : op.exchange = none) : MakesExchange (rmXmm longMode p op size) :=
  bind fun _ => make hop

theorem xmmGpr (hop : op.exchange = none) : MakesExchange (xmmGpr longMode p op size rmSize) :=
  bind fun _ => make hop

theorem gprXmm (hop : op.exchange = none) : MakesExchange (gprXmm longMode p op size) :=
  bind fun _ => make hop

theorem regXmm (hop : op.exchange = none) : MakesExchange (regXmm longMode p op size rmSize) :=
  bind fun _ => bind fun _ => make hop

theorem exchange_packedShiftOp {sub : Nat} {lane : OpSize} (h : packedShiftOp sub lane = some op) :
    op.exchange = none := by
  unfold packedShiftOp at h
  split at h <;> cases h <;> rfl

instance (lane : OpSize) : MakesExchange (decodePackedShift p lane) := by
  refine bind fun (mod, sub, rm) => ite (make0 rfl) (bind fun _ => ?_)
  split
  · rename_i o ho
    exact make (exchange_packedShiftOp ho)
  · exact make0 rfl

instance : MakesExchange (decodePmovmskb p) :=
  bind fun _ => ite (make0 rfl) (bind fun _ => make rfl)

instance : MakesExchange (decodePshufd longMode p) :=
  bind fun _ => bind fun _ => make rfl

instance : MakesExchange (decodeGroup8 longMode p size) := by
  refine bind fun (rm, sub) => bind fun _ => ?_
  split <;> exact make rfl

instance : MakesExchange (decodeNopRm longMode p) :=
  bind fun _ => make0 rfl

instance (cond : Cond) : MakesExchange (decodeSet longMode p cond) :=
  bind fun _ => make rfl

theorem osize {opcode : Nat} {m : DecodeM Form} (h : decodeOsize longMode p opcode = some m) :
    MakesExchange m := by
  unfold decodeOsize at h
  split at h
  any_goals
    obtain rfl := Option.some.inj h
    first | infer_instance | exact xmmRm rfl | exact xmmGpr rfl | exact gprXmm rfl
  cases h

theorem osizeOrRepe {opcode : Nat} {m : DecodeM Form} (h : decodeOsizeOrRepe longMode p opcode = some m) :
    MakesExchange m := by
  unfold decodeOsizeOrRepe at h
  split at h
  · obtain rfl := Option.some.inj h
    exact xmmRm rfl
  · obtain rfl := Option.some.inj h
    exact rmXmm rfl
  · split_ifs at h
    obtain rfl := Option.some.inj h
    exact xmmRm rfl
  · cases h

theorem rep {opcode : Nat} {m : DecodeM Form} (h : decodeRep longMode p opcode = some m) :
    MakesExchange m := by
  have hmove : (if p.repne then Op.movsdXmm else .movssXmm).exchange = none := by split <;> rfl
  unfold decodeRep at h
  dsimp only at h
  split at h
  any_goals
    obtain rfl := Option.some.inj h
    first | exact xmmRm hmove | exact rmXmm hmove | exact xmmRm rfl | exact xmmGpr rfl | exact regXmm rfl
  · split_ifs at h
    · obtain rfl := Option.some.inj h
      exact xmmRm rfl
    · obtain rfl := Option.some.inj h
      exact xmmRm rfl
  · cases h

theorem noRep {opcode : Nat} {m : DecodeM Form} (h : decodeNoRep longMode p opcode = some m) :
    MakesExchange m := by
  unfold decodeNoRep at h
  dsimp only at h
  split at h
  any_goals
    obtain rfl := Option.some.inj h
    exact xmmRm rfl
  · split_ifs at h
    obtain rfl := Option.some.inj h
    exact make0 rfl
  · cases h

instance (opcode : Nat) : MakesExchange (decodePlain longMode p opcode) := by
  unfold decodePlain
  refine ite (regRm rfl) (ite (immOnly rfl) (ite inferInstance (ite (opcodeReg rfl) ?_)))
  split
  all_goals first
    | infer_instance
    | exact make0 rfl
    | exact regRm rfl

instance : MakesExchange (decodeSecondary longMode p) := by
  refine bind fun b => ?_
  dsimp only
  split
  · rename_i m hm
    obtain hrow' | hrow' | hrow' | hrow' := selected_row hm
    · exact osize hrow'
    · exact osizeOrRepe hrow'
    · exact rep hrow'
    · exact noRep hrow'
  · infer_instance

instance : MakesExchange (decodeOpcode longMode) :=
  bind fun _ => bind fun _ => ite inferInstance inferInstance

end Tables

end MakesExchange

/-- **The operands of exchanges.** -/
theorem decodeNext_exchange {longMode : Bool} {rip : BitVec 64} {bs rest : List Byte} {inst : Inst}
    {op : ExchangeOp} (h : decodeNext longMode rip bs = .ok (inst, rest)) (hop : inst.op.exchange = some op) :
    ∃ dst src, inst.operand0 = some dst ∧ inst.operand1 = some (.reg src dst.memSize) ∧
      ((∃ rd n, dst = .reg rd n) ∨ dst.isMem = true) := by
  unfold decodeNext at h
  split at h
  · rename_i f rest' hf
    obtain ⟨rfl, -⟩ := Prod.mk.inj (Except.ok.inj h)
    refine MakesExchange.ok hf ?_
    rw [show f.op.exchange = some op from hop]
    nofun
  · cases h

end Quantum.Jit
