import Quantum.Jit.Iform
import Quantum.Lib.AddCarry

/-!
# The x86 status flags

What the guest architecture says about flags: the flags an arithmetic or logical instruction leaves
at an operand width (`addFlags`, `subFlags`, `logicFlags`, …), and when a condition code holds
(`Flags.holds`).  After a subtraction the conditions are the comparisons of the operands, at the
operand width: `holds_subFlags`.
-/

namespace Quantum.X86

open Jit (Cond)

/-- The status flags that condition codes read. -/
structure Flags where
  cf : Bool
  zf : Bool
  sf : Bool
  of : Bool
  pf : Bool
  deriving Repr, DecidableEq, Inhabited

variable {w : Nat}

/-- The parity flag of a result: an even number of ones in its low byte. -/
def parity (r : BitVec w) : Bool :=
  ((List.range 8).filter fun i => r.getLsbD i).length % 2 == 0

/-- The flags of `a + b + c` (`ADD`, `ADC`). -/
def addFlags (a b : BitVec w) (c : Bool) : Flags :=
  { cf := carryOut a b c
    zf := addc a b c == 0#w
    sf := (addc a b c).msb
    of := overflow a b c
    pf := parity (addc a b c) }

/-- The result of `a - b - c` (`SUB`, `SBB`). -/
def subc (a b : BitVec w) (c : Bool) : BitVec w :=
  a - b - BitVec.ofNat w c.toNat

/-- The flags of `a - b - c` (`SUB`, `CMP`, `SBB`). -/
def subFlags (a b : BitVec w) (c : Bool) : Flags :=
  { cf := decide (a.toNat < b.toNat + c.toNat)
    zf := subc a b c == 0#w
    sf := (subc a b c).msb
    of := decide ((subc a b c).toInt ≠ a.toInt - b.toInt - c.toNat)
    pf := parity (subc a b c) }

/-- The flags of a logical operation with result `r` (`AND`, `OR`, `XOR`, `TEST`). -/
def logicFlags (r : BitVec w) : Flags :=
  { cf := false, zf := r == 0#w, sf := r.msb, of := false, pf := parity r }

/-- `INC`: the flags of `a + 1`, but the carry stays. -/
def incFlags (a : BitVec w) (cf : Bool) : Flags :=
  { addFlags a 1#w false with cf := cf }

/-- `DEC`: the flags of `a - 1`, but the carry stays. -/
def decFlags (a : BitVec w) (cf : Bool) : Flags :=
  { subFlags a 1#w false with cf := cf }

/-- `NEG`: the flags of `0 - a`. -/
def negFlags (a : BitVec w) : Flags :=
  subFlags 0#w a false

/-- Does the condition hold of the flags? -/
def Flags.holds (f : Flags) : Cond → Bool
  | .o => f.of
  | .no => !f.of
  | .b => f.cf
  | .nb => !f.cf
  | .e => f.zf
  | .ne => !f.zf
  | .be => f.cf || f.zf
  | .a => !(f.cf || f.zf)
  | .s => f.sf
  | .ns => !f.sf
  | .p => f.pf
  | .np => !f.pf
  | .l => f.sf != f.of
  | .nl => !(f.sf != f.of)
  | .le => f.zf || (f.sf != f.of)
  | .g => !(f.zf || (f.sf != f.of))

/-! ### Conditions after a subtraction -/

variable (a b : BitVec w)

theorem subc_false : subc a b false = a - b := by
  simp [subc]

/-- The overflow flag of a subtraction is that of the adder with the operand inverted. -/
theorem subFlags_of (hw : 0 < w) : (subFlags a b false).of = overflow a (~~~b) true := by
  rw [overflow_not_true a b hw]
  simp [subFlags, subc_false]

/-- The comparison of `a` and `b` that a condition stands for after a subtraction. -/
def compare : Cond → Bool
  | .o => overflow a (~~~b) true
  | .no => !overflow a (~~~b) true
  | .b => a.ult b
  | .nb => !a.ult b
  | .e => a == b
  | .ne => !(a == b)
  | .be => a.ule b
  | .a => !a.ule b
  | .s => (a - b).msb
  | .ns => !(a - b).msb
  | .p => parity (a - b)
  | .np => !parity (a - b)
  | .l => a.slt b
  | .nl => !a.slt b
  | .le => a.sle b
  | .g => !a.sle b

theorem subFlags_zf : (subFlags a b false).zf = (a == b) := by
  show (subc a b false == 0#w) = (a == b)
  rw [subc_false]
  exact Bool.eq_iff_iff.mpr (by simpa using sub_eq_zero_iff a b)

theorem subFlags_cf : (subFlags a b false).cf = a.ult b := by
  simp [subFlags, BitVec.ult]

theorem ult_or_eq : (a.ult b || a == b) = a.ule b := by
  rw [Bool.eq_iff_iff]
  simp only [Bool.or_eq_true, BitVec.ult_eq_decide, BitVec.ule_eq_decide, decide_eq_true_eq,
    beq_iff_eq, ← BitVec.toNat_inj]
  omega

theorem slt_or_eq : (a == b || a.slt b) = a.sle b := by
  rw [BitVec.sle_eq_slt_or_eq, Bool.or_comm]

/-- After `CMP a, b` a condition holds exactly when the comparison it stands for does. -/
theorem holds_subFlags (hw : 0 < w) (c : Cond) :
    (subFlags a b false).holds c = compare a b c := by
  have hsf : (subFlags a b false).sf = (a - b).msb := by simp [subFlags, subc_false]
  have hlt : ((subFlags a b false).sf != (subFlags a b false).of) = a.slt b := by
    rw [hsf, subFlags_of a b hw, msb_sub_ne_overflow a b hw]
  have hpf : (subFlags a b false).pf = parity (a - b) := by simp [subFlags, subc_false]
  cases c with
  | l => exact hlt
  | nl => exact congrArg not hlt
  | le => rw [Flags.holds, hlt, subFlags_zf, slt_or_eq, compare]
  | g => rw [Flags.holds, hlt, subFlags_zf, slt_or_eq, compare]
  | _ =>
    simp only [Flags.holds, compare, subFlags_zf, subFlags_cf, hsf, hpf, subFlags_of a b hw,
      ult_or_eq]

/-! ### Flags of the adder -/

/-- Zero, sign and overflow are those of the adder on `a`, `b` and `c`. -/
structure Flags.IsSum (f : Flags) (a b : BitVec w) (c : Bool) : Prop where
  zf : f.zf = (addc a b c == 0#w)
  sf : f.sf = (addc a b c).msb
  of : f.of = overflow a b c

/-- A subtraction adds the inverted operand, and its borrow is the inverted carry. -/
theorem subc_eq_addc (c : Bool) : subc a b c = addc a (~~~b) (!c) := by
  cases c with
  | true =>
    rw [subc, addc, Bool.not_true, BitVec.sub_eq_add_neg a b, BitVec.neg_eq_not_add]
    simp [← BitVec.add_assoc]
  | false => rw [subc_false, Bool.not_false, addc_not_true]

theorem isSum_subFlags (hw : 0 < w) (c : Bool) : (subFlags a b c).IsSum a (~~~b) (!c) := by
  refine ⟨?_, ?_, ?_⟩
  · rw [← subc_eq_addc]
    rfl
  · rw [← subc_eq_addc]
    rfl
  · rw [overflow, ← subc_eq_addc, toInt_not_eq b hw]
    refine decide_eq_decide.mpr ?_
    cases c
    · simp only [Bool.toNat_false, Bool.not_false, Bool.toNat_true]
      omega
    · simp only [Bool.toNat_true, Bool.not_true, Bool.toNat_false]
      omega

theorem subFlags_cf_eq (c : Bool) :
    (subFlags a b c).cf = decide (a.toNat + (~~~b).toNat + (!c).toNat < 2 ^ w) := by
  have hb := b.isLt
  rw [BitVec.toNat_not]
  refine decide_eq_decide.mpr ?_
  cases c
  · simp only [Bool.toNat_false, Bool.not_false, Bool.toNat_true]
    omega
  · simp only [Bool.toNat_true, Bool.not_true, Bool.toNat_false]
    omega

/-! ### Conditions after a sum or a difference with carry -/

theorem holds_e_addFlags (c : Bool) : (addFlags a b c).holds .e = true ↔ addc a b c = 0#w :=
  beq_iff_eq

theorem holds_b_addFlags (c : Bool) :
    (addFlags a b c).holds .b = true ↔ 2 ^ w ≤ a.toNat + b.toNat + c.toNat :=
  decide_eq_true_iff

theorem holds_o_addFlags (hw : 0 < w) (c : Bool) :
    (addFlags a b c).holds .o = true ↔ ¬ (-2 ^ (w - 1) ≤ a.toInt + b.toInt + c.toNat ∧
      a.toInt + b.toInt + c.toNat < 2 ^ (w - 1)) := by
  show overflow a b c = true ↔ _
  rw [overflow_eq_range a b c hw, decide_eq_true_iff]

theorem holds_l_addFlags (hw : 0 < w) (c : Bool) :
    (addFlags a b c).holds .l = true ↔ a.toInt + b.toInt + c.toNat < 0 := by
  show ((addc a b c).msb != overflow a b c) = true ↔ _
  rw [msb_ne_overflow a b c hw, decide_eq_true_iff]

theorem holds_le_addFlags (hw : 0 < w) (c : Bool) :
    (addFlags a b c).holds .le = true ↔ a.toInt + b.toInt + c.toNat ≤ 0 := by
  show ((addc a b c == 0#w) || ((addc a b c).msb != overflow a b c)) = true ↔ _
  rw [msb_ne_overflow a b c hw, addc_beq_zero, Bool.or_eq_true, decide_eq_true_iff, decide_eq_true_iff]
  exact zero_or_neg a b c hw

/-- The adder on the inverted operand, as integers: the difference. -/
theorem toInt_not_add (hw : 0 < w) (c : Bool) :
    a.toInt + (~~~b).toInt + (!c).toNat = a.toInt - (b.toInt + c.toNat) := by
  rw [toInt_not_eq b hw]
  cases c
  · simp only [Bool.not_false, Bool.toNat_true, Bool.toNat_false]
    omega
  · simp only [Bool.not_true, Bool.toNat_true, Bool.toNat_false]
    omega

theorem holds_e_subFlags (c : Bool) : (subFlags a b c).holds .e = true ↔ subc a b c = 0#w :=
  beq_iff_eq

theorem holds_b_subFlags (c : Bool) :
    (subFlags a b c).holds .b = true ↔ a.toNat < b.toNat + c.toNat :=
  decide_eq_true_iff

theorem holds_o_subFlags (hw : 0 < w) (c : Bool) :
    (subFlags a b c).holds .o = true ↔ ¬ (-2 ^ (w - 1) ≤ a.toInt - (b.toInt + c.toNat) ∧
      a.toInt - (b.toInt + c.toNat) < 2 ^ (w - 1)) := by
  show (subFlags a b c).of = true ↔ _
  rw [(isSum_subFlags a b hw c).of, overflow_eq_range _ _ _ hw, decide_eq_true_iff, toInt_not_add a b hw]

theorem holds_l_subFlags (hw : 0 < w) (c : Bool) :
    (subFlags a b c).holds .l = true ↔ a.toInt < b.toInt + c.toNat := by
  have h := isSum_subFlags a b hw c
  show ((subFlags a b c).sf != (subFlags a b c).of) = true ↔ _
  rw [h.sf, h.of, msb_ne_overflow _ _ _ hw, decide_eq_true_iff, toInt_not_add a b hw]
  omega

theorem holds_le_subFlags (hw : 0 < w) (c : Bool) :
    (subFlags a b c).holds .le = true ↔ a.toInt ≤ b.toInt + c.toNat := by
  have h := isSum_subFlags a b hw c
  show ((subFlags a b c).zf || ((subFlags a b c).sf != (subFlags a b c).of)) = true ↔ _
  rw [h.zf, h.sf, h.of, addc_beq_zero, msb_ne_overflow _ _ _ hw, Bool.or_eq_true, decide_eq_true_iff,
    decide_eq_true_iff, zero_or_neg _ _ _ hw, toInt_not_add a b hw]
  omega

theorem holds_be_subFlags (c : Bool) :
    (subFlags a b c).holds .be = true ↔ a.toNat ≤ b.toNat + c.toNat := by
  have hz : (subFlags a b c).zf = (addc a (~~~b) (!c) == 0#w) := by
    rw [← subc_eq_addc]
    rfl
  have hb := b.isLt
  show ((subFlags a b c).cf || (subFlags a b c).zf) = true ↔ _
  rw [subFlags_cf_eq, hz, addc_beq_zero, Bool.or_eq_true, decide_eq_true_iff, decide_eq_true_iff,
    not_carry_or_zero, BitVec.toNat_not]
  cases c
  · simp only [Bool.not_false, Bool.toNat_true, Bool.toNat_false]
    omega
  · simp only [Bool.not_true, Bool.toNat_true, Bool.toNat_false]
    omega

end Quantum.X86
