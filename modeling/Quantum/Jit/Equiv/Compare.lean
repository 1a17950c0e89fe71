import Quantum.Jit.Equiv.Address
import Quantum.Jit.Lifter
import Quantum.X86.Flags

/-!
# Compare and test a condition

`CMP` is lowered to a 64-bit `SUBS` for every operand size.  After it a mapped condition tells the
64-bit comparison of the host values of the operands (`holds_condX86ToA64`), while the guest asks for
the comparison of their low parts (`X86.holds_subFlags`).  At size `B8` the two are the same; at size
`B4` they are the same exactly when the upper halves do not disturb the comparison of the lower ones
(`compare_halves_iff`).
-/

namespace Quantum.Jit

open A64
open EmitM

variable {p : Profile}

/-! ### The flags of `SUBS` -/

/-- After `SUBS` a mapped condition is the comparison of the 64-bit operands. -/
theorem holds_condX86ToA64 {cc : Cond} (hp : cc ≠ .p) (hnp : cc ≠ .np) {c : A64.Cond}
    (hc : condX86ToA64 cc = some c) (a b : BitVec 64) :
    c.holds (A64.addFlags a (~~~b) true) = X86.compare a b cc := by
  have hz : (A64.addFlags a (~~~b) true).z = (a == b) := by
    show (addc a (~~~b) true == 0) = (a == b)
    rw [addc_not_true]
    exact Bool.eq_iff_iff.mpr (by simpa using sub_eq_zero_iff a b)
  have hcf : (A64.addFlags a (~~~b) true).c = !a.ult b := carryOut_not_true a b
  have hn : (A64.addFlags a (~~~b) true).n = (a - b).msb := by
    show (addc a (~~~b) true).msb = _
    rw [addc_not_true]
  have hv : (A64.addFlags a (~~~b) true).v = overflow a (~~~b) true := rfl
  have hlt : ((a - b).msb == overflow a (~~~b) true) = !a.slt b := by
    rw [← msb_sub_ne_overflow a b (by decide)]
    cases (a - b).msb <;> cases overflow a (~~~b) true <;> rfl
  have hle : (!a.slt b && !(a == b)) = !a.sle b := by
    rw [← X86.slt_or_eq, Bool.not_or, Bool.and_comm]
  have hls : (!a.ult b && !(a == b)) = !a.ule b := by
    rw [← X86.ult_or_eq, Bool.not_or]
  cases cc <;> first | exact absurd rfl hp | exact absurd rfl hnp | skip
  all_goals
    obtain rfl := Option.some.inj hc
    simp only [A64.Cond.holds, X86.compare, hlt, hz, hcf, hn, hv, hle, hls, Bool.not_not]

/-! ### Comparing halves -/

/-- The upper half of a value. -/
def hi32 (a : BitVec 64) : BitVec 32 := a.extractLsb' 32 32

/-- The lower half of a value. -/
def lo32 (a : BitVec 64) : BitVec 32 := a.setWidth 32

/-- When the comparison of 64-bit values is that of their lower halves. -/
def HalvesAgree (a b : BitVec 64) : Cond → Prop
  | .e | .ne => lo32 a = lo32 b → hi32 a = hi32 b
  | .b | .nb => hi32 a = hi32 b ∨ (hi32 a < hi32 b ↔ lo32 a < lo32 b)
  | .be | .a => hi32 a = hi32 b ∨ (hi32 a < hi32 b ↔ lo32 a ≤ lo32 b)
  | .l | .nl =>
    if hi32 a = hi32 b then (lo32 a).msb = (lo32 b).msb
    else ((hi32 a).toInt < (hi32 b).toInt ↔ (lo32 a).toInt < (lo32 b).toInt)
  | .le | .g =>
    if hi32 a = hi32 b then (lo32 a).msb = (lo32 b).msb
    else ((hi32 a).toInt < (hi32 b).toInt ↔ (lo32 a).toInt ≤ (lo32 b).toInt)
  | .s | .ns => (a - b).getLsbD 63 = (a - b).getLsbD 31
  | .o | .no =>
    (-2 ^ 63 ≤ a.toInt - b.toInt ∧ a.toInt - b.toInt < 2 ^ 63 ↔
      -2 ^ 31 ≤ (lo32 a).toInt - (lo32 b).toInt ∧ (lo32 a).toInt - (lo32 b).toInt < 2 ^ 31)
  | .p | .np => True

instance (a b : BitVec 64) (cc : Cond) : Decidable (HalvesAgree a b cc) := by
  cases cc <;> unfold HalvesAgree <;> infer_instance

theorem toNat_halves (a : BitVec 64) : a.toNat = (hi32 a).toNat * 2 ^ 32 + (lo32 a).toNat := by
  have ha := a.isLt
  simp only [hi32, lo32, BitVec.extractLsb'_toNat, BitVec.toNat_setWidth,
    Nat.shiftRight_eq_div_pow]
  omega

theorem toInt_halves (a : BitVec 64) : a.toInt = (hi32 a).toInt * 2 ^ 32 + (lo32 a).toNat := by
  have h := toNat_halves a
  have hh := (hi32 a).isLt
  have hl := (lo32 a).isLt
  rw [BitVec.toInt_eq_toNat_cond, BitVec.toInt_eq_toNat_cond, h]
  split <;> split <;> omega

theorem lo32_sub (a b : BitVec 64) : lo32 (a - b) = lo32 a - lo32 b := by
  refine BitVec.eq_of_toNat_eq ?_
  simp only [lo32, BitVec.toNat_setWidth, BitVec.toNat_sub]
  omega

/-- The overflow of a subtraction, as a range. -/
theorem overflow_eq_decide {w : Nat} (a b : BitVec (w + 1)) :
    overflow a (~~~b) true
      = decide (¬ (-2 ^ w ≤ a.toInt - b.toInt ∧ a.toInt - b.toInt < 2 ^ w)) := by
  have ha := BitVec.le_two_mul_toInt (x := a)
  have ha' := BitVec.two_mul_toInt_lt (x := a)
  have hb := BitVec.le_two_mul_toInt (x := b)
  have hb' := BitVec.two_mul_toInt_lt (x := b)
  rw [overflow_not_true a b (by omega), decide_eq_decide, BitVec.toInt_sub]
  have hd := bmod_cases (w := w + 1) (a.toInt - b.toInt) (by omega) (by omega)
  rw [show (2 : Int) ^ (w + 1) = 2 * 2 ^ w by rw [Int.pow_succ, Int.mul_comm]] at *
  generalize (2 : Int) ^ w = P at *
  omega

theorem compare_halves_iff {cc : Cond} (hp : cc ≠ .p) (hnp : cc ≠ .np) (a b : BitVec 64) :
    X86.compare a b cc = X86.compare (lo32 a) (lo32 b) cc ↔ HalvesAgree a b cc := by
  have hna := toNat_halves a
  have hnb := toNat_halves b
  have hia := toInt_halves a
  have hib := toInt_halves b
  have hla := (lo32 a).isLt
  have hlb := (lo32 b).isLt
  have hlia := BitVec.toInt_eq_toNat_cond (lo32 a)
  have hlib := BitVec.toInt_eq_toNat_cond (lo32 b)
  have hhi : hi32 a = hi32 b ↔ (hi32 a).toNat = (hi32 b).toNat := BitVec.toNat_inj.symm
  have hhi' : hi32 a = hi32 b ↔ (hi32 a).toInt = (hi32 b).toInt := BitVec.toInt_inj.symm
  have hlo : lo32 a = lo32 b ↔ (lo32 a).toNat = (lo32 b).toNat := BitVec.toNat_inj.symm
  have hab : a = b ↔ a.toNat = b.toNat := BitVec.toNat_inj.symm
  have heq : X86.compare a b .e = X86.compare (lo32 a) (lo32 b) .e ↔ HalvesAgree a b .e := by
    simp only [X86.compare, HalvesAgree, beq_eq_beq, hhi, hlo, hab]
    omega
  have hult : X86.compare a b .b = X86.compare (lo32 a) (lo32 b) .b ↔ HalvesAgree a b .b := by
    simp only [X86.compare, HalvesAgree, BitVec.ult, decide_eq_decide, hhi, BitVec.lt_def]
    omega
  have hule : X86.compare a b .be = X86.compare (lo32 a) (lo32 b) .be ↔ HalvesAgree a b .be := by
    simp only [X86.compare, HalvesAgree, BitVec.ule, decide_eq_decide, hhi, BitVec.lt_def,
      BitVec.le_def]
    omega
  have hslt : X86.compare a b .l = X86.compare (lo32 a) (lo32 b) .l ↔ HalvesAgree a b .l := by
    simp only [X86.compare, HalvesAgree, BitVec.slt, decide_eq_decide, hhi', BitVec.msb_eq_decide]
    split <;> split at hlia <;> split at hlib <;> omega
  have hsle : X86.compare a b .le = X86.compare (lo32 a) (lo32 b) .le ↔ HalvesAgree a b .le := by
    simp only [X86.compare, HalvesAgree, BitVec.sle, decide_eq_decide, hhi', BitVec.msb_eq_decide]
    split <;> split at hlia <;> split at hlib <;> omega
  have hmsb : X86.compare a b .s = X86.compare (lo32 a) (lo32 b) .s ↔ HalvesAgree a b .s := by
    have hsub : (lo32 a - lo32 b).msb = (a - b).getLsbD 31 := by
      rw [← lo32_sub, lo32, BitVec.msb_setWidth]
      rfl
    simp only [X86.compare, HalvesAgree, hsub]
    rfl
  have hov : X86.compare a b .o = X86.compare (lo32 a) (lo32 b) .o ↔ HalvesAgree a b .o := by
    simp only [X86.compare, HalvesAgree, overflow_eq_decide, decide_eq_decide, not_iff_not]
  cases cc with
  | p => exact absurd rfl hp
  | np => exact absurd rfl hnp
  | e => exact heq
  | b => exact hult
  | be => exact hule
  | l => exact hslt
  | le => exact hsle
  | s => exact hmsb
  | o => exact hov
  | ne => exact Bool.not_inj_iff.trans heq
  | nb => exact Bool.not_inj_iff.trans hult
  | a => exact Bool.not_inj_iff.trans hule
  | nl => exact Bool.not_inj_iff.trans hslt
  | g => exact Bool.not_inj_iff.trans hsle
  | ns => exact Bool.not_inj_iff.trans hmsb
  | no => exact Bool.not_inj_iff.trans hov

/-! ### The code of `CMP` -/

/-- The size of a compare: that of the register operand if there is one. -/
def cmpSize : Operand → Operand → OpSize
  | .reg _ size, _ => size
  | _, .reg _ size => size
  | m, _ => m.memSize

/-- The 64-bit value the host has for an operand: a whole register, a zero-extended memory operand,
or a sign-extended immediate. -/
def operandValue (inst : Inst) (s : State) (size : OpSize) : Operand → BitVec 64
  | .reg r _ => guest s r
  | .imm v _ => v
  | op => memValue inst s size op

/-- An immediate is the sign extension of 32 bits, as the decoder makes them. -/
def Operand.ImmOk : Operand → Prop
  | .imm v _ => v = (v.setWidth 32).signExtend 64
  | _ => True

instance (op : Operand) : Decidable op.ImmOk :=
  match op with
  | .imm v _ => inferInstanceAs (Decidable (v = (v.setWidth 32).signExtend 64))
  | .reg _ _ | .xmmReg _ _ | .mem _ | .ripRel _ _ => isTrue trivial

theorem execOne_cmp64 {env : Env} {pc : Nat} (s : State) (rm rn : Reg) :
    execOne env pc (.addSubShift true true rm 0 rn 31) s
      = some { s with nzcv := A64.addFlags (s.readX rn) (~~~(s.readX rm)) true } := by
  show some { s with nzcv := A64.addFlags (s.readX rn) (~~~(s.readX rm <<< 0)) true } = _
  rw [BitVec.shiftLeft_zero]

theorem execOne_cmp64Imm {env : Env} {pc : Nat} (s : State) (rn : Reg) (sh : Bool)
    (i : BitVec 12) :
    execOne env pc (.addSubImm true true sh i rn 31) s
      = some { s with nzcv := A64.addFlags (s.x rn) (~~~(immValue sh i)) true } := rfl

/-- A small immediate is its low 32 bits. -/
theorem setWidth_of_smallImm {v : BitVec 64} (hv : v = (v.setWidth 32).signExtend 64)
    (h : smallImm v = true) : (v.setWidth 32).setWidth 64 = v := by
  have hmsb : v.msb = false := by
    simp only [smallImm, Bool.and_eq_true, Bool.not_eq_true'] at h
    exact h.1
  rw [hv, BitVec.msb_signExtend] at hmsb
  conv_rhs => rw [hv]
  exact (BitVec.signExtend_eq_setWidth_of_msb_false (by simpa using hmsb)).symm

/-- The code compares `a` with `b`: it ends with the flags of `SUBS`. -/
def Compares (a b : State → BitVec 64) (is : List (Option Insn)) : Prop :=
  ∀ env pc s, ∃ s₁ : State,
    runSeq env pc is s = some { s₁ with nzcv := A64.addFlags (a s) (~~~(b s)) true }

/-- Code that compares after code that loads the operands. -/
theorem Compares.append {a b a' b' : State → BitVec 64} {is js : List (Option Insn)}
    {f : State → State} (hf : ∀ env pc s, runSeq env pc is s = some (f s))
    (h : Compares a b js) (ha : ∀ s, a (f s) = a' s) (hb : ∀ s, b (f s) = b' s) :
    Compares a' b' (is ++ js) := by
  intro env pc s
  obtain ⟨s₁, hs₁⟩ := h env (pc + is.length) (f s)
  refine ⟨s₁, ?_⟩
  rw [runSeq_append, hf, Option.bind_some, hs₁, ha, hb]

theorem compares_cmp64 {ra rb : Reg} (ha : ra ≠ 31#5) (hb : rb ≠ 31#5) :
    Compares (fun s => s.x ra) (fun s => s.x rb) [some (.addSubShift true true rb 0 ra 31)] := by
  intro env pc s
  refine ⟨s, ?_⟩
  rw [runSeq_cons, execOne_cmp64, s.readX_of_ne _ ha, s.readX_of_ne _ hb]
  rfl

/-- A register compared with an immediate, directly or through `tmp`. -/
theorem emits_cmpImm {r tmp : Reg} (hr : r ≠ 31#5) (htmp : tmp ≠ 31#5) (hne : r ≠ tmp)
    {v : BitVec 64} (hv : v = (v.setWidth 32).signExtend 64)
    {Q : Unit → List (Option Insn) → Prop}
    (h : ∀ is, Compares (fun s => s.x r) (fun _ => v) is → Q () is) :
    Emits p (if smallImm v then cmp64Imm r (v.setWidth 32)
      else do
        loadConst64 tmp v
        cmp64 r tmp : LiftM Unit) Q := by
  split
  · rename_i hs
    refine emits_subs64Imm fun sh i hi => h _ fun env pc s => ⟨s, ?_⟩
    rw [runSeq_cons, execOne_cmp64Imm, hi, setWidth_of_smallImm hv hs]
    rfl
  · refine Emits.bind (emits_loadConst64 htmp v fun is hl => emits_subs64 (h _ ?_))
    exact Compares.append hl.run (compares_cmp64 hr htmp) (fun s => by simp [hne])
      (fun s => by simp [htmp])

/-- What the code of a compare does: it compares the host values of the operands. -/
theorem emits_liftCmp {inst : Inst} {oa ob : Operand} (h0 : inst.operand0 = some oa)
    (h1 : inst.operand1 = some ob) (himm : ob.ImmOk) (ha : AccessOk p oa (cmpSize oa ob))
    (hb : AccessOk p ob (cmpSize oa ob)) :
    Emits p (liftCmp inst) fun _ is =>
      Compares (fun s => operandValue inst s (cmpSize oa ob) oa)
        (fun s => operandValue inst s (cmpSize oa ob) ob) is := by
  unfold liftCmp
  rw [h0, h1]
  refine Emits.bind (Emits.pure (Emits.bind (Emits.pure ?_)))
  simp only [List.nil_append]
  -- the two orders of a register and a memory operand, and a memory operand with an immediate
  have hrm : ∀ (ra : GpReg) (size : OpSize) (op : Operand), AccessOk p op size →
      Emits p (cmpRegMem inst ra size op) fun _ is =>
        Compares (fun s => guest s ra) (fun s => memValue inst s size op) is := by
    intro ra size op hok
    refine Emits.bind (emits_loadOperand hok fun is _ hrun => emits_subs64 ?_)
    exact Compares.append hrun (compares_cmp64 (hostReg_ne_31 ra) (by decide))
      (fun s => by simp [guest]) (fun s => by simp)
  have hmr : ∀ (rb : GpReg) (size : OpSize) (op : Operand), AccessOk p op size →
      Emits p (cmpMemReg inst op rb size) fun _ is =>
        Compares (fun s => memValue inst s size op) (fun s => guest s rb) is := by
    intro rb size op hok
    refine Emits.bind (emits_loadOperand hok fun is _ hrun => emits_subs64 ?_)
    exact Compares.append hrun (compares_cmp64 (by decide) (hostReg_ne_31 rb))
      (fun s => by simp) (fun s => by simp [guest])
  have hmi : ∀ (v : BitVec 64) (op : Operand), v = (v.setWidth 32).signExtend 64 →
      AccessOk p op op.memSize → Emits p (cmpMemImm inst op v) fun _ is =>
        Compares (fun s => memValue inst s op.memSize op) (fun _ => v) is := by
    intro v op hv hok
    refine Emits.bind (emits_loadOperand hok fun is _ hrun => ?_)
    exact emits_cmpImm (by decide) (by decide) (by decide) hv fun js hc =>
      Compares.append hrun hc (fun s => by simp) (fun _ => rfl)
  cases oa with
  | reg ra sa =>
    cases ob with
    | reg rb sb =>
      have hcmp := compares_cmp64 (hostReg_ne_31 ra) (hostReg_ne_31 rb)
      cases sa with
      | b4 => exact emits_subs64 hcmp
      | b8 => exact emits_subs64 hcmp
      | _ => exact Emits.fail
    | imm v sb =>
      cases sa with
      | b4 => exact emits_cmpImm (by simp) (by decide) (by simp) himm fun is hc => hc
      | b8 => exact emits_cmpImm (by simp) (by decide) (by simp) himm fun is hc => hc
      | _ => exact Emits.fail
    | mem m => cases sa <;> exact hrm ra _ _ hb
    | ripRel d sz => cases sa <;> exact hrm ra _ _ hb
    | xmmReg n sz => cases sa <;> exact Emits.fail
  | mem m =>
    cases ob with
    | reg rb sb => exact hmr rb sb _ ha
    | imm v sb => exact hmi v _ himm ha
    | _ => exact Emits.fail
  | ripRel d sz =>
    cases ob with
    | reg rb sb => exact hmr rb sb _ ha
    | imm v sb => exact hmi v _ himm ha
    | _ => exact Emits.fail
  | xmmReg n sz => exact Emits.fail
  | imm v sz => exact Emits.fail

end Quantum.Jit
