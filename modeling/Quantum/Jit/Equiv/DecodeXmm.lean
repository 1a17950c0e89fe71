import Quantum.Jit.Equiv.DecodeRow

/-!
# The decoder names XMM registers that exist

Every XMM register operand that the decoder makes has a number below sixteen (`decodeNext_xmmOk`): the
number is a field of three bits, with or without one extension bit.  The tables follow row by row, and
instances find the row.
-/

namespace Quantum.Jit

open DecodeM X86

/-- The operand names an XMM register that exists, if it names one. -/
def Operand.XmmOk : Operand → Prop
  | .xmmReg d _ => d.toNat < 16
  | _ => True

/-- The first two operands name XMM registers that exist. -/
class Inst.XmmOk (inst : Inst) : Prop where
  operand0 : ∀ o, inst.operand0 = some o → o.XmmOk
  operand1 : ∀ o, inst.operand1 = some o → o.XmmOk

/-! ### Operands -/

theorem regIndex_lt {ext : Bool} {field : Nat} (h : field < 8) : regIndex ext field < 16 := by
  have hext : (if ext then 8 else 0) < 2 ^ 4 := by split <;> decide
  exact Nat.or_lt_two_pow hext (by omega)

theorem regField_lt (modrm : Byte) : regField modrm < 8 :=
  (modrm.extractLsb' 3 3).isLt

theorem rmField_lt (modrm : Byte) : rmField modrm < 8 :=
  (modrm.extractLsb' 0 3).isLt

theorem xmmOk_xmmOperand {n : Nat} (h : n < 16) (size : OpSize) : (xmmOperand n size).XmmOk := by
  change (BitVec.ofNat 8 n).toNat < 16
  rw [BitVec.toNat_ofNat]
  omega

section Operands

variable {longMode : Bool} {p : Prefixes} {modrm : Byte} {size : OpSize} {op : Operand}

theorem IsRmMemory.xmmOk (h : IsRmMemory longMode p modrm size op) : op.XmmOk := by
  unfold IsRmMemory at h
  split_ifs at h
  · obtain ⟨disp, rfl⟩ := h
    trivial
  · obtain ⟨m, rfl, -⟩ := h
    trivial

theorem IsRm.xmmOk (h : IsRm longMode p modrm size op) : op.XmmOk := by
  unfold IsRm at h
  split_ifs at h
  · obtain ⟨r, -, rfl⟩ := h
    trivial
  · exact h.xmmOk

theorem IsXmmRm.xmmOk (h : IsXmmRm longMode p modrm size op) : op.XmmOk := by
  unfold IsXmmRm at h
  split_ifs at h
  · rw [h]
    exact xmmOk_xmmOperand (regIndex_lt (rmField_lt modrm)) size
  · exact h.xmmOk

theorem Operand.XmmOk.rewidth (h : op.XmmOk) : (rewidth op size).XmmOk := by
  cases op with
  | xmmReg d _ => exact h
  | reg | mem | ripRel | imm => trivial

end Operands

/-! ### Rows -/

/-- Every form that the computation makes has operands that name XMM registers that exist. -/
class MakesXmm (m : DecodeM Form) : Prop where
  ok : ∀ {bs f rest}, m bs = .ok (f, rest) →
    (∀ o, f.operand0 = some o → o.XmmOk) ∧ ∀ o, f.operand1 = some o → o.XmmOk

namespace MakesXmm

variable {α : Type}

theorem make {op : Op} {o₀ o₁ : Operand} (o₂ : Option Operand) (h₀ : o₀.XmmOk) (h₁ : o₁.XmmOk) :
    MakesXmm (Jit.make op (some o₀) (some o₁) o₂) := by
  refine ⟨fun h => ?_⟩
  obtain ⟨rfl, -⟩ := pure_ok h
  refine ⟨fun o ho => ?_, fun o ho => ?_⟩
  · rwa [← Option.some.inj ho]
  · rwa [← Option.some.inj ho]

theorem make1 {op : Op} {o₀ : Operand} (h₀ : o₀.XmmOk) :
    MakesXmm (Jit.make op (some o₀) none none) := by
  refine ⟨fun h => ?_⟩
  obtain ⟨rfl, -⟩ := pure_ok h
  refine ⟨fun o ho => ?_, fun o ho => ?_⟩
  · rwa [← Option.some.inj ho]
  · cases ho

instance (op : Op) : MakesXmm (make0 op) := by
  refine ⟨fun h => ?_⟩
  obtain ⟨rfl, -⟩ := pure_ok h
  refine ⟨fun o ho => ?_, fun o ho => ?_⟩
  · cases ho
  · cases ho

instance : MakesXmm unhandledForm :=
  inferInstanceAs (MakesXmm (make0 .unhandled))

theorem bind {m : DecodeM α} {f : α → DecodeM Form} (h : ∀ a, MakesXmm (f a)) :
    MakesXmm (m >>= f) := by
  refine ⟨fun hm => ?_⟩
  obtain ⟨a, rest, -, hf⟩ := bind_ok hm
  exact (h a).ok hf

instance ite (c : Prop) [Decidable c] (m m' : DecodeM Form) [h : MakesXmm m] [h' : MakesXmm m'] :
    MakesXmm (if c then m else m') := by
  split
  · exact h
  · exact h'

variable {longMode : Bool} {p : Prefixes} {size : OpSize}

/-- What comes after the r/m operand. -/
theorem modrm {f : Operand × Nat → DecodeM Form}
    (h : ∀ rm reg, rm.XmmOk → reg < 8 → MakesXmm (f (rm, reg))) :
    MakesXmm (decodeModrm longMode p size >>= f) := by
  refine ⟨fun hm => ?_⟩
  obtain ⟨⟨rm, reg⟩, rest, hdec, hf⟩ := bind_ok hm
  obtain ⟨hrm, hreg, -⟩ := decodeModrm_ok hdec
  refine (h rm reg hrm.xmmOk ?_).ok hf
  rw [show reg = _ from hreg]
  exact regField_lt _

/-- What comes after the r/m operand of an SSE instruction. -/
theorem modrmXmm {f : Operand × Nat → DecodeM Form}
    (h : ∀ rm reg, rm.XmmOk → reg < 16 → MakesXmm (f (rm, reg))) :
    MakesXmm (decodeModrmXmm longMode p size >>= f) := by
  refine ⟨fun hm => ?_⟩
  obtain ⟨⟨rm, reg⟩, rest, hdec, hf⟩ := bind_ok hm
  obtain ⟨hrm, hreg, -⟩ := decodeModrmXmm_ok hdec
  refine (h rm reg hrm.xmmOk ?_).ok hf
  rw [show reg = _ from hreg]
  exact regIndex_lt (regField_lt _)

/-- What comes after the fields of a ModRM byte. -/
theorem fields {f : Nat × Nat × Nat → DecodeM Form}
    (h : ∀ mod reg rm, reg < 8 → rm < 8 → MakesXmm (f (mod, reg, rm))) :
    MakesXmm (readModRm >>= f) := by
  refine ⟨fun hm => ?_⟩
  obtain ⟨q, rest, hdec, hf⟩ := bind_ok hm
  obtain ⟨b, -, rfl⟩ := readModRm_ok hdec
  exact (h _ _ _ (regField_lt b) (rmField_lt b)).ok hf

/-- What comes after a general register. -/
theorem register {reg : Nat} {f : Operand → DecodeM Form}
    (h : ∀ r, MakesXmm (f (.reg r size))) : MakesXmm (regOperand p reg size >>= f) := by
  refine ⟨fun hm => ?_⟩
  obtain ⟨o, rest, hdec, hf⟩ := bind_ok hm
  obtain ⟨r, rest', -, hpure⟩ := bind_ok hdec
  obtain ⟨rfl, -⟩ := pure_ok hpure
  exact (h r).ok hf

/-- What comes after a general register that the opcode names. -/
theorem opcodeRegister {low3 : Nat} {f : Operand → DecodeM Form}
    (h : ∀ r, MakesXmm (f (.reg r size))) : MakesXmm (opcodeRegOperand p low3 size >>= f) := by
  refine ⟨fun hm => ?_⟩
  obtain ⟨o, rest, hdec, hf⟩ := bind_ok hm
  obtain ⟨r, rest', -, hpure⟩ := bind_ok hdec
  obtain ⟨rfl, -⟩ := pure_ok hpure
  exact (h r).ok hf

/-! ### The tables -/

section Tables

variable (longMode p size)

instance (op : Op) : MakesXmm (rmReg longMode p op size) :=
  modrm fun _ _ hrm _ => register fun _ => make _ hrm trivial

instance (op : Op) (rmSize : OpSize) : MakesXmm (regRm longMode p op size rmSize) :=
  modrm fun _ _ hrm _ => register fun _ => make _ trivial hrm

instance (op : Op) (immSize : OpSize) : MakesXmm (accImm op size immSize) :=
  bind fun _ => make _ trivial trivial

instance (op : Op) (readSize : OpSize) : MakesXmm (immOnly op readSize size) :=
  bind fun _ => make1 trivial

instance (op : Op) (low3 : Nat) : MakesXmm (opcodeReg p op low3 size) :=
  opcodeRegister fun _ => make1 trivial

instance (opcode : Nat) (op : Op) : MakesXmm (decodeArithForm longMode p opcode op) := by
  unfold decodeArithForm
  split <;> infer_instance

instance (immSize : OpSize) : MakesXmm (decodeGroup1 longMode p size immSize) :=
  modrm fun _ _ hrm _ => bind fun _ => make _ hrm trivial

instance (amount : ShiftAmountForm) : MakesXmm (decodeGroup2 longMode p size amount) := by
  refine modrm fun rm sub hrm _ => ?_
  cases amount with
  | one => exact make _ hrm trivial
  | cl => exact make _ hrm trivial
  | imm8 => exact bind fun _ => make _ hrm trivial

instance : MakesXmm (decodeGroup3 longMode p size) := by
  refine modrm fun rm sub hrm _ => ?_
  dsimp only
  split
  iterate 2 exact bind fun _ => make _ hrm trivial
  all_goals exact make1 hrm

instance : MakesXmm (decodeGroup4 longMode p) := by
  refine modrm fun rm sub hrm _ => ?_
  dsimp only
  split
  · exact make1 hrm
  · exact make1 hrm
  · infer_instance

instance : MakesXmm (decodeGroup5 longMode p) := by
  refine modrm fun rm sub hrm _ => ?_
  dsimp only
  split
  · exact make1 hrm
  · exact make1 hrm
  · exact make1 hrm.rewidth
  · exact make1 hrm.rewidth
  · exact make1 hrm.rewidth
  · infer_instance

instance (immSize : OpSize) : MakesXmm (imulImm longMode p size immSize) :=
  modrm fun _ _ hrm _ => register fun _ => bind fun _ => make _ trivial hrm

instance (immSize : OpSize) : MakesXmm (movRmImm longMode p size immSize) := by
  refine modrm fun rm sub hrm _ => ?_
  dsimp only
  split
  · infer_instance
  · exact bind fun _ => make _ hrm trivial

instance (low3 : Nat) : MakesXmm (movOpcodeReg p low3 size) :=
  opcodeRegister fun _ => bind fun _ => make _ trivial trivial

instance (op : Op) (sizeBytes : BitVec 64) : MakesXmm (stringForm p op sizeBytes) :=
  make _ trivial trivial

instance : MakesXmm (popRm longMode p) := by
  refine modrm fun rm sub hrm _ => ?_
  dsimp only
  split
  · infer_instance
  · exact make1 hrm

instance (low3 : Nat) : MakesXmm (xchgAcc longMode p low3) :=
  opcodeRegister fun _ => make _ trivial trivial

instance (opcode : Nat) : MakesXmm (decodePrimary longMode p opcode) := by
  unfold decodePrimary
  iterate 9 refine @ite _ _ _ _ inferInstance ?_
  split
  all_goals first
    | infer_instance
    | exact bind fun _ => make1 trivial

instance (op : Op) (rmSize : OpSize) : MakesXmm (xmmRm longMode p op size rmSize) :=
  modrmXmm fun _ _ hrm hreg => make _ (xmmOk_xmmOperand hreg _) hrm

instance (op : Op) : MakesXmm (rmXmm longMode p op size) :=
  modrmXmm fun _ _ hrm hreg => make _ hrm (xmmOk_xmmOperand hreg _)

instance (op : Op) (rmSize : OpSize) : MakesXmm (xmmGpr longMode p op size rmSize) :=
  modrm fun _ _ hrm hreg => make _ (xmmOk_xmmOperand (by omega) _) hrm

instance (op : Op) : MakesXmm (gprXmm longMode p op size) :=
  modrm fun _ _ hrm hreg => make _ hrm (xmmOk_xmmOperand (by omega) _)

instance (op : Op) (intSize : OpSize) : MakesXmm (regXmm longMode p op intSize size) :=
  modrmXmm fun _ _ hrm _ => register fun _ => make _ trivial hrm

instance (lane : OpSize) : MakesXmm (decodePackedShift p lane) := by
  refine fields fun mod sub rm _ hrm => ?_
  dsimp only
  split
  · infer_instance
  · refine bind fun imm => ?_
    split
    · exact make _ (xmmOk_xmmOperand (regIndex_lt hrm) _) trivial
    · infer_instance

instance : MakesXmm (decodePmovmskb p) := by
  refine fields fun mod reg rm _ hrm => ?_
  dsimp only
  split
  · infer_instance
  · exact bind fun _ => make _ trivial (xmmOk_xmmOperand (regIndex_lt hrm) _)

instance : MakesXmm (decodePshufd longMode p) :=
  modrmXmm fun _ _ hrm hreg => bind fun _ => make _ (xmmOk_xmmOperand hreg _) hrm

instance : MakesXmm (decodeGroup8 longMode p size) := by
  refine modrm fun rm sub hrm _ => bind fun imm => ?_
  split
  iterate 4 exact make _ hrm trivial
  infer_instance

instance : MakesXmm (decodeNopRm longMode p) :=
  bind fun _ => inferInstance

instance (cond : Cond) : MakesXmm (decodeSet longMode p cond) :=
  modrm fun _ _ hrm _ => make1 hrm

theorem osize {opcode : Nat} {m : DecodeM Form} (h : decodeOsize longMode p opcode = some m) :
    MakesXmm m := by
  unfold decodeOsize at h
  split at h
  any_goals
    obtain rfl := Option.some.inj h
    infer_instance
  cases h

theorem osizeOrRepe {opcode : Nat} {m : DecodeM Form}
    (h : decodeOsizeOrRepe longMode p opcode = some m) : MakesXmm m := by
  unfold decodeOsizeOrRepe at h
  split at h
  · obtain rfl := Option.some.inj h
    infer_instance
  · obtain rfl := Option.some.inj h
    infer_instance
  · split_ifs at h
    obtain rfl := Option.some.inj h
    infer_instance
  · cases h

theorem rep {opcode : Nat} {m : DecodeM Form} (h : decodeRep longMode p opcode = some m) :
    MakesXmm m := by
  unfold decodeRep at h
  dsimp only at h
  split at h
  any_goals
    obtain rfl := Option.some.inj h
    infer_instance
  · split_ifs at h
    · obtain rfl := Option.some.inj h
      infer_instance
    · obtain rfl := Option.some.inj h
      infer_instance
  · cases h

theorem noRep {opcode : Nat} {m : DecodeM Form} (h : decodeNoRep longMode p opcode = some m) :
    MakesXmm m := by
  unfold decodeNoRep at h
  dsimp only at h
  split at h
  any_goals
    obtain rfl := Option.some.inj h
    infer_instance
  · split_ifs at h
    obtain rfl := Option.some.inj h
    infer_instance
  · cases h

instance (opcode : Nat) : MakesXmm (decodePlain longMode p opcode) := by
  unfold decodePlain
  iterate 4 refine @ite _ _ _ _ inferInstance ?_
  split <;> infer_instance

instance : MakesXmm (decodeSecondary longMode p) := by
  refine bind fun b => ?_
  dsimp only
  split
  · rename_i m hm
    obtain hrow' | hrow' | hrow' | hrow' := selected_row hm
    · exact osize _ _ hrow'
    · exact osizeOrRepe _ _ hrow'
    · exact rep _ _ hrow'
    · exact noRep _ _ hrow'
  · infer_instance

instance : MakesXmm (decodeOpcode longMode) := by
  refine bind fun p => bind fun opcode => ?_
  split <;> infer_instance

end Tables

end MakesXmm

/-- **The decoder names XMM registers that exist.** -/
theorem decodeNext_xmmOk {longMode : Bool} {rip : BitVec 64} {bs rest : List Byte} {inst : Inst}
    (h : decodeNext longMode rip bs = .ok (inst, rest)) : inst.XmmOk := by
  unfold decodeNext at h
  split at h
  · rename_i f rest' hf
    obtain ⟨rfl, -⟩ := Prod.mk.inj (Except.ok.inj h)
    obtain ⟨h₀, h₁⟩ := MakesXmm.ok hf
    exact ⟨h₀, h₁⟩
  · cases h

end Quantum.Jit
