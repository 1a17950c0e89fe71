import Quantum.Jit.Equiv.Alu

/-!
# Flags after arithmetic and logic

Which conditions and carries are right after an instruction that sets the guest's flags.  Every host
instruction works on 64 bits, `AND`, `OR` and `XOR` do not write the host's flags, and the one
condition map assumes the carry of a subtraction.  `FlagsRight` says, for an instruction, an operand
size and a consumer of the flags, when the host's answer is the guest's (`flagsRight_iff`): for sums
and differences it relates the whole operands to their low parts (`SumsAgree`, `DiffsAgree`).
-/

namespace Quantum.Jit

open A64
open EmitM

variable {p : Profile}

/-! ### Consumers -/

/-- What reads the flags: `Jcc`, `SETcc` and `CMOVcc` test a condition, `ADC` and `SBB` take the
carry. -/
inductive Consumer where
  | cond (cc : Cond)
  | adc
  | sbb
  deriving Repr, DecidableEq

namespace Consumer

/-- The mapped condition, or the carry in (`ADC`) or borrow in (`SBB`) of the host instruction. -/
def host (q : Consumer) (f : A64.Flags) : Bool :=
  match q with
  | cond cc => (condX86ToA64 cc).any (·.holds f)
  | adc => f.c
  | sbb => !f.c

/-- The condition, or the carry flag. -/
def guest (q : Consumer) (f : X86.Flags) : Bool :=
  match q with
  | cond cc => f.holds cc
  | adc => f.cf
  | sbb => f.cf

end Consumer

/-! ### Producers -/

/-- The instructions other than `CMP` that set the guest's flags from their operands. -/
inductive FlagOp where
  | add | sub | inc | dec | neg | and | or | xor | test | adc | sbb
  deriving Repr, DecidableEq

namespace FlagOp

def op : FlagOp → Op
  | add => .add | sub => .sub | inc => .inc | dec => .dec | neg => .neg | and => .and | or => .or
  | xor => .xor | test => .test | adc => .adc | sbb => .sbb

/-- The second operand; for an instruction with one operand that operand again. -/
def second (k : FlagOp) (inst : Inst) : Option Operand :=
  match k with
  | inc | dec | neg => inst.operand0
  | _ => inst.operand1

/-- The guest's flags after the instruction on operands of `w` bits, with `cf` the carry before. -/
def guestFlags {w : Nat} (k : FlagOp) (a b : BitVec w) (cf : Bool) : X86.Flags :=
  match k with
  | add => X86.addFlags a b false
  | sub => X86.subFlags a b false
  | inc => X86.incFlags a cf
  | dec => X86.decFlags a cf
  | neg => X86.negFlags a
  | and => X86.logicFlags (a &&& b)
  | or => X86.logicFlags (a ||| b)
  | xor => X86.logicFlags (a ^^^ b)
  | test => X86.logicFlags (a &&& b)
  | adc => X86.addFlags a b cf
  | sbb => X86.subFlags a b cf

/-- The host's flags after the code of the instruction, from the 64-bit host values. -/
def hostFlags (k : FlagOp) (f : A64.Flags) (a b : BitVec 64) : A64.Flags :=
  match k with
  | add => A64.addFlags a b false
  | sub => A64.addFlags a (~~~b) true
  | inc => A64.addFlags a 1 false
  | dec => A64.addFlags a (~~~1) true
  | neg => A64.addFlags 0 (~~~a) true
  | and | or | xor => f
  | test => A64.logicFlags (a &&& b)
  | adc => A64.addFlags a b f.c
  | sbb => A64.addFlags a (~~~b) f.c

end FlagOp

/-! ### When the answers agree -/

/-- The sum of 64-bit values with carry in `c`, against the sum of their low `w` bits with carry in `c'`: when the
condition map and the carry in give a consumer the guest's answer.  The map takes a clear carry for `B`, so the one
sum must carry out where the other does not; only `ADC` takes the carry as it is. -/
def SumsAgree (w : Nat) (a b : BitVec 64) (c c' : Bool) (q : Consumer) : Prop :=
  let x := a.setWidth w
  let y := b.setWidth w
  match q with
  | .cond .e | .cond .ne => addc a b c = 0 ↔ addc x y c' = 0
  | .cond .s | .cond .ns => (addc a b c).msb = (addc x y c').msb
  | .cond .o | .cond .no =>
    (-2 ^ 63 ≤ a.toInt + b.toInt + c.toNat ∧ a.toInt + b.toInt + c.toNat < 2 ^ 63) ↔
      (-2 ^ (w - 1) ≤ x.toInt + y.toInt + c'.toNat ∧ x.toInt + y.toInt + c'.toNat < 2 ^ (w - 1))
  | .cond .l | .cond .nl => a.toInt + b.toInt + c.toNat < 0 ↔ x.toInt + y.toInt + c'.toNat < 0
  | .cond .le | .cond .g => a.toInt + b.toInt + c.toNat ≤ 0 ↔ x.toInt + y.toInt + c'.toNat ≤ 0
  | .cond .b | .cond .nb | .sbb =>
    a.toNat + b.toNat + c.toNat < 2 ^ 64 ↔ 2 ^ w ≤ x.toNat + y.toNat + c'.toNat
  | .cond .be | .cond .a =>
    a.toNat + b.toNat + c.toNat ≤ 2 ^ 64 ↔ 2 ^ w ≤ x.toNat + y.toNat + c'.toNat ∨ addc x y c' = 0
  | .adc => 2 ^ 64 ≤ a.toNat + b.toNat + c.toNat ↔ 2 ^ w ≤ x.toNat + y.toNat + c'.toNat
  | .cond .p | .cond .np => True

/-- The difference of 64-bit values with borrow in `c`, against that of their low `w` bits with borrow in `c'`: the
two comparisons that the consumer stands for come out the same.  `ADC` takes the complement of the borrow. -/
def DiffsAgree (w : Nat) (a b : BitVec 64) (c c' : Bool) (q : Consumer) : Prop :=
  let x := a.setWidth w
  let y := b.setWidth w
  match q with
  | .cond .e | .cond .ne => X86.subc a b c = 0 ↔ X86.subc x y c' = 0
  | .cond .s | .cond .ns => (X86.subc a b c).msb = (X86.subc x y c').msb
  | .cond .o | .cond .no =>
    (-2 ^ 63 ≤ a.toInt - (b.toInt + c.toNat) ∧ a.toInt - (b.toInt + c.toNat) < 2 ^ 63) ↔
      (-2 ^ (w - 1) ≤ x.toInt - (y.toInt + c'.toNat) ∧ x.toInt - (y.toInt + c'.toNat) < 2 ^ (w - 1))
  | .cond .l | .cond .nl => a.toInt < b.toInt + c.toNat ↔ x.toInt < y.toInt + c'.toNat
  | .cond .le | .cond .g => a.toInt ≤ b.toInt + c.toNat ↔ x.toInt ≤ y.toInt + c'.toNat
  | .cond .b | .cond .nb | .sbb => a.toNat < b.toNat + c.toNat ↔ x.toNat < y.toNat + c'.toNat
  | .cond .be | .cond .a => a.toNat ≤ b.toNat + c.toNat ↔ x.toNat ≤ y.toNat + c'.toNat
  | .adc => a.toNat < b.toNat + c.toNat ↔ y.toNat + c'.toNat ≤ x.toNat
  | .cond .p | .cond .np => True

/-- `INC`: the guest keeps its carry `cf`, and the host's carry is that of `a + 1`. -/
def IncRight (w : Nat) (a : BitVec 64) (cf : Bool) (q : Consumer) : Prop :=
  match q with
  | .cond .b | .cond .nb | .sbb => cf = true ↔ a ≠ -1
  | .adc => cf = true ↔ a = -1
  | .cond .be | .cond .a => cf = true ∨ a.setWidth w = -1
  | q => SumsAgree w a 1 false false q

/-- `DEC`: the guest keeps its carry `cf`, and the host borrows for `a = 0` only. -/
def DecRight (w : Nat) (a : BitVec 64) (cf : Bool) (q : Consumer) : Prop :=
  match q with
  | .cond .b | .cond .nb | .sbb => cf = true ↔ a = 0
  | .adc => cf = true ↔ a ≠ 0
  | .cond .be | .cond .a => a ≤ 1 ↔ cf = true ∨ a.setWidth w = 1
  | q => DiffsAgree w a 1 false false q

/-- `AND`, `OR` and `XOR` write no flags on the host: the flags `f` left there before are those of the result `r`,
as far as the consumer reads them. -/
def LogicRight {w : Nat} (f : A64.Flags) (r : BitVec w) (q : Consumer) : Prop :=
  match q with
  | .cond .e | .cond .ne => f.z = true ↔ r = 0
  | .cond .s | .cond .ns => f.n = r.msb
  | .cond .o | .cond .no => f.v = false
  | .cond .l | .cond .nl => f.n ≠ f.v ↔ r.msb = true
  | .cond .le | .cond .g => f.z = true ∨ f.n ≠ f.v ↔ r = 0 ∨ r.msb = true
  | .cond .b | .cond .nb => f.c = true
  | .cond .be | .cond .a => f.c = false ∨ f.z = true ↔ r = 0
  | .cond .p | .cond .np => True
  | .adc => f.c = false
  | .sbb => f.c = true

/-- `TEST` of the 64-bit host values, where the guest tests the low `w` bits of their conjunction. -/
def TestRight (w : Nat) (r : BitVec 64) (q : Consumer) : Prop :=
  match q with
  | .cond .e | .cond .ne => r.setWidth w = 0 → r = 0
  | .cond .s | .cond .ns | .cond .l | .cond .nl => r.msb = (r.setWidth w).msb
  | .cond .le | .cond .g => r = 0 ∨ r.msb = true ↔ r.setWidth w = 0 ∨ (r.setWidth w).msb = true
  | .cond .be | .cond .a => r.setWidth w = 0
  | .cond .b | .cond .nb | .sbb => False
  | .cond .o | .cond .no | .cond .p | .cond .np | .adc => True

/-- When the answer that `q` gets after the instruction `k` is right: `a` and `b` are the 64-bit host
values of the operands, `f` the host's flags and `cf` the guest's carry before the instruction. -/
def FlagsRight (k : FlagOp) (w : Nat) (a b : BitVec 64) (f : A64.Flags) (cf : Bool)
    (q : Consumer) : Prop :=
  match k with
  | .add => SumsAgree w a b false false q
  | .adc => SumsAgree w a b f.c cf q
  | .sub => DiffsAgree w a b false false q
  | .sbb => DiffsAgree w a b (!f.c) cf q
  | .neg => DiffsAgree w 0 a false false q
  | .inc => IncRight w a cf q
  | .dec => DecRight w a cf q
  | .and => LogicRight f ((a &&& b).setWidth w) q
  | .or => LogicRight f ((a ||| b).setWidth w) q
  | .xor => LogicRight f ((a ^^^ b).setWidth w) q
  | .test => TestRight w (a &&& b) q

/-- Neither parity condition, which the map documents as floating-point only. -/
def Consumer.NotParity (q : Consumer) : Prop :=
  q ≠ .cond .p ∧ q ≠ .cond .np

/-! ### Negated conditions -/

/-- The condition that a condition negates. -/
def Consumer.base : Consumer → Consumer
  | .cond .ne => .cond .e
  | .cond .ns => .cond .s
  | .cond .no => .cond .o
  | .cond .nl => .cond .l
  | .cond .nb => .cond .b
  | .cond .g => .cond .le
  | .cond .a => .cond .be
  | q => q

theorem host_guest_not {q q' : Consumer} {f : A64.Flags} {f' : X86.Flags}
    (hh : q'.host f = !q.host f) (hg : q'.guest f' = !q.guest f') :
    q'.host f = q'.guest f' ↔ q.host f = q.guest f' := by
  rw [hh, hg]
  exact Bool.not_inj_iff

/-- A condition and its negation are right together. -/
theorem host_guest_base (q : Consumer) (f : A64.Flags) (f' : X86.Flags) :
    q.host f = q.guest f' ↔ q.base.host f = q.base.guest f' := by
  cases q with
  | adc | sbb => exact Iff.rfl
  | cond cc =>
    cases cc with
    | ne | ns | no | nb | nl | g | a =>
      apply host_guest_not
      · simp [Consumer.base, Consumer.host, condX86ToA64, A64.Cond.holds]
      · rfl
    | _ => exact Iff.rfl

theorem host_le (f : A64.Flags) : (Consumer.cond .le).host f = (f.z || (f.n != f.v)) := by
  show (!((f.n == f.v) && !f.z)) = _
  rw [Bool.not_and, Bool.not_not, Bool.or_comm]
  rfl

theorem host_be (f : A64.Flags) : (Consumer.cond .be).host f = (!f.c || f.z) := by
  show (!(f.c && !f.z)) = _
  rw [Bool.not_and, Bool.not_not]

/-- Two answers that stand for two facts. -/
theorem answers_agree {x y : Bool} {P Q : Prop} (hx : x = true ↔ P) (hy : y = true ↔ Q) : x = y ↔ (P ↔ Q) :=
  Bool.eq_iff_iff.trans (iff_congr hx hy)

/-! ### Sums and differences -/

section Sums

variable {w : Nat} (hw : 0 < w) (a b : BitVec 64) (c c' : Bool) {q : Consumer} (hq : q.NotParity)
include hw hq

/-- The host's flags after an addition are the guest's at 64 bits. -/
theorem sumsAgree_iff :
    q.host (A64.addFlags a b c) = q.guest (X86.addFlags (a.setWidth w) (b.setWidth w) c')
      ↔ SumsAgree w a b c c' q := by
  have h64 : 0 < 64 := by decide
  have hcarry := X86.holds_b_addFlags a b c
  have hbelow : (!(X86.addFlags a b c).cf) = true ↔ a.toNat + b.toNat + c.toNat < 2 ^ 64 := by
    rw [Bool.not_eq_true', ← Bool.not_eq_true]
    exact (not_congr hcarry).trans Nat.not_le
  rw [host_guest_base]
  cases q with
  | adc => exact answers_agree hcarry (X86.holds_b_addFlags _ _ c')
  | sbb => exact answers_agree hbelow (X86.holds_b_addFlags _ _ c')
  | cond cc =>
    cases cc with
    | p => exact absurd rfl hq.1
    | np => exact absurd rfl hq.2
    | e | ne => exact answers_agree (X86.holds_e_addFlags a b c) (X86.holds_e_addFlags _ _ c')
    | s | ns => exact Iff.rfl
    | o | no =>
      exact (answers_agree (X86.holds_o_addFlags a b h64 c) (X86.holds_o_addFlags _ _ hw c')).trans not_iff_not
    | l | nl => exact answers_agree (X86.holds_l_addFlags a b h64 c) (X86.holds_l_addFlags _ _ hw c')
    | le | g =>
      show (Consumer.cond .le).host _ = _ ↔ _
      rw [host_le]
      exact answers_agree (X86.holds_le_addFlags a b h64 c) (X86.holds_le_addFlags _ _ hw c')
    | b | nb => exact answers_agree hbelow (X86.holds_b_addFlags _ _ c')
    | be | a =>
      show (Consumer.cond .be).host _ = _ ↔ _
      rw [host_be]
      apply answers_agree
      · show (!(X86.addFlags a b c).cf || (addc a b c == 0)) = true ↔ _
        rw [Bool.or_eq_true, hbelow]
        refine (or_congr Iff.rfl ?_).trans (not_carry_or_zero a b c)
        exact Bool.eq_iff_iff.mp (addc_beq_zero a b c) |>.trans decide_eq_true_iff
      · show ((X86.addFlags _ _ c').cf || (X86.addFlags _ _ c').zf) = true ↔ _
        rw [Bool.or_eq_true]
        exact or_congr (X86.holds_b_addFlags _ _ c') (X86.holds_e_addFlags _ _ c')

omit hw hq in
/-- The host's flags after a subtraction are the guest's at 64 bits, but the carry is inverted. -/
theorem addFlags_not :
    A64.addFlags a (~~~b) (!c) = ⟨(X86.subFlags a b c).sf, (X86.subFlags a b c).zf, !(X86.subFlags a b c).cf,
      (X86.subFlags a b c).of⟩ := by
  have h := X86.isSum_subFlags a b (by decide) c
  rw [h.sf, h.zf, h.of, X86.subFlags_cf_eq, ← decide_not]
  simp only [Nat.not_lt]
  rfl

theorem diffsAgree_iff :
    q.host (A64.addFlags a (~~~b) (!c)) = q.guest (X86.subFlags (a.setWidth w) (b.setWidth w) c')
      ↔ DiffsAgree w a b c c' q := by
  have h64 : 0 < 64 := by decide
  have hbelow := X86.holds_b_subFlags a b c
  rw [host_guest_base, addFlags_not]
  cases q with
  | adc =>
    have hcarry : (!(X86.subFlags a b c).cf) = true ↔ ¬ a.toNat < b.toNat + c.toNat := by
      rw [Bool.not_eq_true', ← Bool.not_eq_true]
      exact not_congr hbelow
    refine (answers_agree hcarry (X86.holds_b_subFlags _ _ c')).trans ?_
    show (¬ _ < _ ↔ _ < _) ↔ (_ < _ ↔ _ ≤ _)
    omega
  | sbb =>
    show (!!(X86.subFlags a b c).cf) = _ ↔ _
    rw [Bool.not_not]
    exact answers_agree hbelow (X86.holds_b_subFlags _ _ c')
  | cond cc =>
    cases cc with
    | p => exact absurd rfl hq.1
    | np => exact absurd rfl hq.2
    | e | ne => exact answers_agree (X86.holds_e_subFlags a b c) (X86.holds_e_subFlags _ _ c')
    | s | ns => exact Iff.rfl
    | o | no =>
      exact (answers_agree (X86.holds_o_subFlags a b h64 c) (X86.holds_o_subFlags _ _ hw c')).trans not_iff_not
    | l | nl => exact answers_agree (X86.holds_l_subFlags a b h64 c) (X86.holds_l_subFlags _ _ hw c')
    | le | g =>
      show (Consumer.cond .le).host _ = _ ↔ _
      rw [host_le]
      exact answers_agree (X86.holds_le_subFlags a b h64 c) (X86.holds_le_subFlags _ _ hw c')
    | b | nb =>
      show (!!(X86.subFlags a b c).cf) = _ ↔ _
      rw [Bool.not_not]
      exact answers_agree hbelow (X86.holds_b_subFlags _ _ c')
    | be | a =>
      show (Consumer.cond .be).host _ = _ ↔ _
      rw [host_be, Bool.not_not]
      exact answers_agree (X86.holds_be_subFlags a b c) (X86.holds_be_subFlags _ _ c')

end Sums

theorem logicRight_iff {w : Nat} (f : A64.Flags) (r : BitVec w) {q : Consumer}
    (hq : q.NotParity) : q.host f = q.guest (X86.logicFlags r) ↔ LogicRight f r q := by
  have hz : (X86.logicFlags r).zf = true ↔ r = 0 := by
    show (r == 0#w) = true ↔ _
    exact beq_iff_eq
  have he : (Consumer.cond .e).host f = (Consumer.cond .e).guest (X86.logicFlags r)
      ↔ LogicRight f r (.cond .e) := by
    rw [Bool.eq_iff_iff]
    exact iff_congr Iff.rfl hz
  have hl : (Consumer.cond .l).host f = (Consumer.cond .l).guest (X86.logicFlags r)
      ↔ LogicRight f r (.cond .l) := by
    rw [Bool.eq_iff_iff]
    refine iff_congr ?_ ?_
    · show (!(f.n == f.v)) = true ↔ f.n ≠ f.v
      simp
    · show (r.msb != false) = true ↔ r.msb = true
      simp
  have hle : (Consumer.cond .le).host f = (Consumer.cond .le).guest (X86.logicFlags r)
      ↔ LogicRight f r (.cond .le) := by
    rw [Bool.eq_iff_iff]
    refine iff_congr ?_ ?_
    · show (!(f.n == f.v && !f.z)) = true ↔ f.z = true ∨ f.n ≠ f.v
      cases f.z <;> simp
    · show ((X86.logicFlags r).zf || (r.msb != false)) = true ↔ r = 0 ∨ r.msb = true
      rw [Bool.or_eq_true, hz]
      simp
  have hbe : (Consumer.cond .be).host f = (Consumer.cond .be).guest (X86.logicFlags r)
      ↔ LogicRight f r (.cond .be) := by
    rw [Bool.eq_iff_iff]
    refine iff_congr ?_ ?_
    · show (!(f.c && !f.z)) = true ↔ f.c = false ∨ f.z = true
      cases f.z <;> cases f.c <;> simp
    · show (false || (X86.logicFlags r).zf) = true ↔ r = 0
      rw [Bool.false_or, hz]
  have hb : (Consumer.cond .b).host f = (Consumer.cond .b).guest (X86.logicFlags r)
      ↔ LogicRight f r (.cond .b) := by
    show (!f.c) = false ↔ f.c = true
    simp
  rw [host_guest_base]
  cases q with
  | adc => exact Iff.rfl
  | sbb => exact hb
  | cond cc =>
    cases cc with
    | p => exact absurd rfl hq.1
    | np => exact absurd rfl hq.2
    | e | ne => exact he
    | s | ns => exact Iff.rfl
    | o | no => exact Iff.rfl
    | l | nl => exact hl
    | b | nb => exact hb
    | le | g => exact hle
    | be | a => exact hbe

/-- With the host's flags those of the 64-bit conjunction, the carry and overflow are clear. -/
theorem logicRight_logicFlags_iff (w : Nat) (r : BitVec 64) (q : Consumer) :
    LogicRight (A64.logicFlags r) (r.setWidth w) q ↔ TestRight w r q := by
  have hz : r = 0 → r.setWidth w = 0 := by
    rintro rfl
    simp
  have hz' : (A64.logicFlags r).z = true ↔ r = 0 := by
    show (r == 0) = true ↔ _
    exact beq_iff_eq
  cases q with
  | adc => exact iff_true_intro rfl
  | sbb => exact iff_of_false Bool.false_ne_true id
  | cond cc =>
    cases cc with
    | e | ne => exact (iff_congr hz' Iff.rfl).trans ⟨fun h => h.mpr, fun h => ⟨hz, h⟩⟩
    | s | ns => exact Iff.rfl
    | l | nl =>
      show (r.msb ≠ false ↔ (r.setWidth w).msb = true) ↔ r.msb = (r.setWidth w).msb
      rw [Bool.eq_iff_iff]
      simp
    | le | g =>
      show (_ ∨ r.msb ≠ false ↔ _) ↔ _
      rw [hz']
      simp [TestRight]
    | be | a =>
      show (false = false ∨ _ ↔ _) ↔ r.setWidth w = 0
      simp
    | b | nb => exact iff_of_false Bool.false_ne_true id
    | o | no => exact iff_true_intro rfl
    | p | np => exact Iff.rfl

/-! ### Increment and decrement -/

section Step

variable {w : Nat}

theorem setWidth_one : (1 : BitVec 64).setWidth w = 1#w := by
  apply BitVec.eq_of_toNat_eq
  simp

theorem zf_incFlags (v : BitVec w) (cf : Bool) : (X86.incFlags v cf).zf = true ↔ v = -1 := by
  show (addc v 1#w false == 0#w) = true ↔ _
  rw [beq_iff_eq, addc_false]
  exact eq_neg_iff_add_eq_zero.symm

theorem zf_decFlags (v : BitVec w) (cf : Bool) : (X86.decFlags v cf).zf = true ↔ v = 1 := by
  show (X86.subc v 1#w false == 0#w) = true ↔ _
  rw [beq_iff_eq, X86.subc_false]
  exact sub_eq_zero_iff v 1#w

variable (hw : 0 < w) (a : BitVec 64) (cf : Bool) {q : Consumer} (hq : q.NotParity)
include hw hq

theorem incRight_iff :
    q.host (A64.addFlags a 1 false) = q.guest (X86.incFlags (a.setWidth w) cf) ↔ IncRight w a cf q := by
  have hsum := sumsAgree_iff hw a 1 false false hq
  rw [setWidth_one] at hsum
  have hcarry : (X86.addFlags a 1 false).cf = true ↔ a = -1 := by
    rw [← BitVec.toNat_inj]
    refine (X86.holds_b_addFlags a 1 false).trans ?_
    simp
    omega
  have hbelow : (!(X86.addFlags a 1 false).cf) = true ↔ a ≠ -1 := by
    rw [Bool.not_eq_true', ← Bool.not_eq_true]
    exact not_congr hcarry
  cases q with
  | adc => exact (answers_agree hcarry Iff.rfl).trans iff_comm
  | sbb => exact (answers_agree hbelow Iff.rfl).trans iff_comm
  | cond cc =>
    cases cc with
    | p => exact absurd rfl hq.1
    | np => exact absurd rfl hq.2
    | b | nb =>
      rw [host_guest_base]
      exact (answers_agree hbelow Iff.rfl).trans iff_comm
    | be | a =>
      -- the host finds `BE` true: the sum carries out only where it is zero
      have hhost : (Consumer.cond .be).host (A64.addFlags a 1 false) = true := by
        rw [host_be, Bool.or_eq_true]
        by_cases h : a = -1
        · exact .inr ((zf_incFlags a cf).mpr h)
        · exact .inl (hbelow.mpr h)
      have hguest : (Consumer.cond .be).guest (X86.incFlags (a.setWidth w) cf) = true
          ↔ cf = true ∨ a.setWidth w = -1 := by
        show (cf || (X86.incFlags (a.setWidth w) cf).zf) = true ↔ _
        rw [Bool.or_eq_true]
        exact or_congr Iff.rfl (zf_incFlags _ cf)
      rw [host_guest_base]
      show (Consumer.cond .be).host _ = _ ↔ _
      rw [hhost, eq_comm]
      exact hguest
    | _ => exact hsum

theorem decRight_iff :
    q.host (A64.addFlags a (~~~1) true) = q.guest (X86.decFlags (a.setWidth w) cf) ↔ DecRight w a cf q := by
  have hdiff := diffsAgree_iff hw a 1 false false hq
  rw [setWidth_one] at hdiff
  have hbelow : (X86.subFlags a 1 false).cf = true ↔ a = 0 := by
    rw [← BitVec.toNat_inj]
    refine (X86.holds_b_subFlags a 1 false).trans ?_
    simp
  have hcarry : (!(X86.subFlags a 1 false).cf) = true ↔ a ≠ 0 := by
    rw [Bool.not_eq_true', ← Bool.not_eq_true]
    exact not_congr hbelow
  have hbelowEq : (X86.subFlags a 1 false).holds .be = true ↔ a ≤ 1 := by
    rw [X86.holds_be_subFlags, BitVec.le_def]
    simp
  have hguest : (cf || (X86.decFlags (a.setWidth w) cf).zf) = true ↔ cf = true ∨ a.setWidth w = 1 := by
    rw [Bool.or_eq_true]
    exact or_congr Iff.rfl (zf_decFlags _ cf)
  have hflags := addFlags_not a 1 false
  cases q with
  | adc =>
    rw [Bool.not_false] at hflags
    rw [hflags]
    exact (answers_agree hcarry Iff.rfl).trans iff_comm
  | sbb =>
    show (!(A64.addFlags a (~~~1) (!false)).c) = _ ↔ _
    rw [hflags, Bool.not_not]
    exact (answers_agree hbelow Iff.rfl).trans iff_comm
  | cond cc =>
    cases cc with
    | p => exact absurd rfl hq.1
    | np => exact absurd rfl hq.2
    | b | nb =>
      rw [host_guest_base]
      show (Consumer.cond .b).host (A64.addFlags a (~~~1) (!false)) = _ ↔ _
      rw [hflags]
      show (!!(X86.subFlags a 1 false).cf) = _ ↔ _
      rw [Bool.not_not]
      exact (answers_agree hbelow Iff.rfl).trans iff_comm
    | be | a =>
      rw [host_guest_base]
      show (Consumer.cond .be).host (A64.addFlags a (~~~1) (!false)) = _ ↔ _
      rw [host_be, hflags, Bool.not_not]
      exact answers_agree hbelowEq hguest
    | _ => exact hdiff

end Step

/-- The host's answer is the guest's exactly when `FlagsRight` says so. -/
theorem flagsRight_iff (k : FlagOp) {w : Nat} (hw : 0 < w) (a b : BitVec 64)
    (f : A64.Flags) (cf : Bool) {q : Consumer} (hq : q.NotParity) :
    q.host (k.hostFlags f a b) = q.guest (k.guestFlags (a.setWidth w) (b.setWidth w) cf)
      ↔ FlagsRight k w a b f cf q := by
  have hzero : (0 : BitVec 64).setWidth w = 0#w := BitVec.setWidth_zero ..
  cases k with
  | add => exact sumsAgree_iff hw a b false false hq
  | adc => exact sumsAgree_iff hw a b f.c cf hq
  | sub => exact diffsAgree_iff hw a b false false hq
  | sbb =>
    have h := diffsAgree_iff hw a b (!f.c) cf hq
    rw [Bool.not_not] at h
    exact h
  | neg =>
    have h := diffsAgree_iff hw 0 a false false hq
    rw [hzero] at h
    exact h
  | inc => exact incRight_iff hw a cf hq
  | dec => exact decRight_iff hw a cf hq
  | and =>
    show _ = q.guest (X86.logicFlags (a.setWidth w &&& b.setWidth w)) ↔ _
    rw [← BitVec.setWidth_and]
    exact logicRight_iff _ _ hq
  | or =>
    show _ = q.guest (X86.logicFlags (a.setWidth w ||| b.setWidth w)) ↔ _
    rw [← BitVec.setWidth_or]
    exact logicRight_iff _ _ hq
  | xor =>
    show _ = q.guest (X86.logicFlags (a.setWidth w ^^^ b.setWidth w)) ↔ _
    rw [← BitVec.setWidth_xor]
    exact logicRight_iff _ _ hq
  | test =>
    show _ = q.guest (X86.logicFlags (a.setWidth w &&& b.setWidth w)) ↔ _
    rw [← BitVec.setWidth_and]
    exact (logicRight_iff _ _ hq).trans (logicRight_logicFlags_iff _ _ _)

/-- At size `B8` the host and the guest form the same sums.  After `ADD` the carry has the wrong
polarity for every condition that reads it and for `SBB`; a zero result hides it from `BE` and `A`. -/
theorem flagsRight_add_b8 (a b : BitVec 64) (f : A64.Flags) (cf : Bool) (q : Consumer) :
    FlagsRight .add 64 a b f cf q ↔
      match q with
      | .cond .b | .cond .nb | .sbb => False
      | .cond .be | .cond .a => a + b = 0
      | _ => True := by
  have ha := a.isLt
  have hb := b.isLt
  have hsum : a + b = 0 ↔ (a.toNat + b.toNat) % 2 ^ 64 = 0 := by
    rw [← BitVec.toNat_inj, BitVec.toNat_add]
    rfl
  unfold FlagsRight SumsAgree
  simp only [BitVec.setWidth_eq, Bool.toNat_false, Nat.add_zero]
  cases q with
  | adc => simp
  | sbb => simp; omega
  | cond cc =>
    cases cc with
    | b | nb => simp only [iff_false]; omega
    | be | a => simp only [addc_false, hsum]; omega
    | _ => simp

/-- At size `B8` everything but the carry in of `ADC` is right after `SUB`. -/
theorem flagsRight_sub_b8 (a b : BitVec 64) (f : A64.Flags) (cf : Bool) (q : Consumer) :
    FlagsRight .sub 64 a b f cf q ↔ q ≠ .adc := by
  unfold FlagsRight DiffsAgree
  simp only [BitVec.setWidth_eq]
  cases q with
  | adc => simp only [ne_eq, not_true_eq_false, iff_false]; omega
  | sbb => simp
  | cond cc => cases cc <;> simp

/-! ### The code of the producers -/

/-- The code of every producer leaves the host flags `hostFlags`. -/
theorem effect_flagOp {legacy32 : Bool} {inst : Inst} {k : FlagOp} {oa ob : Operand}
    (hop : inst.op = k.op) (h0 : inst.operand0 = some oa) (h1 : k.second inst = some ob)
    (himm : ob.ImmOk) (ha : AccessOk p oa oa.memSize) (hb : AccessOk p ob ob.memSize) :
    Emits p (lift legacy32 inst) fun _ is => ∀ env pc s, ∃ s', runSeq env pc is s = some s' ∧
      s'.nzcv = k.hostFlags s.nzcv (hostValue inst s oa) (hostValue inst s ob) := by
  have hfl : ∀ {flags : State → A64.Flags} {regs : State → GpReg → BitVec 64}
      {is : List (Option Insn)}, Effect flags regs is → ∀ env pc s, ∃ s',
        runSeq env pc is s = some s' ∧ s'.nzcv = flags s := by
    intro flags regs is h env pc s
    obtain ⟨s', hs', hn, -⟩ := h env pc s
    exact ⟨s', hs', hn⟩
  cases k with
  | add =>
    rw [show lift legacy32 inst = liftArith inst .add by rw [lift, hop]; rfl]
    exact (performs_liftArith h0 h1 ha hb .add himm).mono fun _ is h => hfl h
  | sub =>
    rw [show lift legacy32 inst = liftArith inst .sub by rw [lift, hop]; rfl]
    exact (performs_liftArith h0 h1 ha hb .sub himm).mono fun _ is h => hfl h
  | inc =>
    rw [show lift legacy32 inst = liftIncDec inst true by rw [lift, hop]; rfl]
    exact (performs_unaryOp h0 ha (unary_emitIncDec true) _).mono fun _ is h => hfl h
  | dec =>
    rw [show lift legacy32 inst = liftIncDec inst false by rw [lift, hop]; rfl]
    exact (performs_unaryOp h0 ha (unary_emitIncDec false) _).mono fun _ is h => hfl h
  | neg =>
    rw [show lift legacy32 inst = liftNeg inst by rw [lift, hop]; rfl]
    exact (performs_unaryOp h0 ha unary_emitNeg _).mono fun _ is h => hfl h
  | and =>
    rw [show lift legacy32 inst = liftBitop inst .and by rw [lift, hop]; rfl]
    exact (performs_liftBitop h0 h1 ha hb .and).mono fun _ is h => hfl h
  | or =>
    rw [show lift legacy32 inst = liftBitop inst .or by rw [lift, hop]; rfl]
    exact (performs_liftBitop h0 h1 ha hb .or).mono fun _ is h => hfl h
  | xor =>
    rw [show lift legacy32 inst = liftXor inst by rw [lift, hop]; rfl]
    exact (performs_liftXor h0 h1 ha hb).mono fun _ is h => hfl h
  | test =>
    rw [show lift legacy32 inst = liftTest inst by rw [lift, hop]; rfl]
    exact (effect_liftTest h0 h1 ha hb).mono fun _ is h => hfl h
  | adc =>
    rw [show lift legacy32 inst = liftAddc inst true by rw [lift, hop]; rfl]
    exact (performs_liftAddc h0 h1 hb true).mono fun _ is h => hfl h
  | sbb =>
    rw [show lift legacy32 inst = liftAddc inst false by rw [lift, hop]; rfl]
    exact (performs_liftAddc h0 h1 hb false).mono fun _ is h => hfl h

theorem OpSize.bits_pos (size : OpSize) : 0 < size.bits := by
  cases size <;> decide

end Quantum.Jit
