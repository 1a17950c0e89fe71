import Mathlib.Data.BitVec
import Mathlib.Tactic.IntervalCases
import Mathlib.Tactic.NormNum

/-!
# Addition with carry and the comparisons it computes

An adder on `w` bits takes two words and a carry and returns the sum (`addc`), the carry out
(`carryOut`) and the signed overflow (`overflow`).  A subtraction `a - b` is the addition of `~~~b`
with carry one (`addc_not_true`), and its outputs are the comparisons of `a` and `b`:

* `carryOut_not_true`: the carry out is the negation of `a < b` unsigned;
* `msb_sub_ne_overflow`: sign and overflow differ exactly when `a < b` signed;
* `addc_not_true_eq_zero_iff`: the result is zero exactly when `a = b`.
-/

namespace Quantum

variable {w : Nat}

/-- The sum `a + b + c` of an adder. -/
def addc (a b : BitVec w) (c : Bool) : BitVec w :=
  a + b + BitVec.ofNat w c.toNat

/-- The carry out of `a + b + c`. -/
def carryOut (a b : BitVec w) (c : Bool) : Bool :=
  decide (2 ^ w ≤ a.toNat + b.toNat + c.toNat)

/-- The signed overflow of `a + b + c`. -/
def overflow (a b : BitVec w) (c : Bool) : Bool :=
  decide ((addc a b c).toInt ≠ a.toInt + b.toInt + c.toNat)

theorem addc_false (a b : BitVec w) : addc a b false = a + b := by
  simp [addc]

theorem addc_not_true (a b : BitVec w) : addc a (~~~b) true = a - b := by
  rw [addc, BitVec.sub_eq_add_neg, BitVec.neg_eq_not_add, BitVec.add_assoc]
  rfl

theorem sub_eq_zero_iff (a b : BitVec w) : a - b = 0#w ↔ a = b := by
  refine ⟨fun h => ?_, fun h => by rw [h, BitVec.sub_self]⟩
  rw [← BitVec.sub_add_cancel a b, h, BitVec.zero_add]

theorem addc_not_true_eq_zero_iff (a b : BitVec w) : addc a (~~~b) true = 0#w ↔ a = b := by
  rw [addc_not_true, sub_eq_zero_iff]

theorem carryOut_not_true (a b : BitVec w) : carryOut a (~~~b) true = !a.ult b := by
  have hb := b.isLt
  have ha := a.isLt
  rw [carryOut, BitVec.toNat_not, BitVec.ult, ← decide_not]
  refine decide_eq_decide.mpr ?_
  simp only [Bool.toNat_true]
  omega

/-! ### Signed overflow -/

/-- An integer between `-2 ^ w` and `2 ^ w` reduced to the signed range of `w` bits. -/
theorem bmod_cases (d : Int) (h₁ : -2 ^ w ≤ d) (h₂ : d < 2 ^ w) :
    (2 * d < -2 ^ w ∧ d.bmod (2 ^ w) = d + 2 ^ w) ∨
    (-2 ^ w ≤ 2 * d ∧ 2 * d < 2 ^ w ∧ d.bmod (2 ^ w) = d) ∨
    (2 ^ w ≤ 2 * d ∧ d.bmod (2 ^ w) = d - 2 ^ w) := by
  have key : d.bmod (2 ^ w) = if d % 2 ^ w < (2 ^ w + 1) / 2 then d % 2 ^ w
      else d % 2 ^ w - 2 ^ w := by
    rw [Int.bmod_def]
    norm_cast
  rw [key]
  generalize (2 : Int) ^ w = P at *
  rcases lt_or_ge d 0 with hd | hd
  · have : d % P = d + P := by
      rw [← Int.add_emod_right, Int.emod_eq_of_lt (by omega) (by omega)]
    rw [this]
    split <;> omega
  · rw [Int.emod_eq_of_lt hd h₂]
    split <;> omega

theorem toInt_not_eq (b : BitVec w) (hw : 0 < w) : (~~~b).toInt = -b.toInt - 1 := by
  have hb := b.isLt
  have hpow : 2 ^ w = 2 * 2 ^ (w - 1) := by
    rw [← Nat.pow_succ', Nat.succ_eq_add_one, Nat.sub_one_add_one hw.ne']
  rw [BitVec.toInt_eq_toNat_cond, BitVec.toInt_eq_toNat_cond, BitVec.toNat_not]
  rw [hpow] at hb ⊢
  generalize 2 ^ (w - 1) = Q at *
  split <;> split <;> omega

theorem overflow_not_true (a b : BitVec w) (hw : 0 < w) :
    overflow a (~~~b) true = decide ((a - b).toInt ≠ a.toInt - b.toInt) := by
  rw [overflow, addc_not_true, toInt_not_eq b hw]
  refine decide_eq_decide.mpr ?_
  simp only [Bool.toNat_true, Nat.cast_one]
  omega

/-- The sign of `a - b` and its overflow tell `a < b` as signed numbers. -/
theorem msb_sub_ne_overflow (a b : BitVec w) (hw : 0 < w) :
    ((a - b).msb != overflow a (~~~b) true) = a.slt b := by
  have hlo : ∀ x : BitVec w, -2 ^ w ≤ 2 * x.toInt := fun x => BitVec.le_two_mul_toInt
  have hhi : ∀ x : BitVec w, 2 * x.toInt < 2 ^ w := fun x => BitVec.two_mul_toInt_lt
  have hd := bmod_cases (w := w) (a.toInt - b.toInt)
    (by have := hlo a; have := hhi b; omega) (by have := hhi a; have := hlo b; omega)
  rw [overflow_not_true a b hw, BitVec.msb_eq_toInt, BitVec.slt, BitVec.toInt_sub]
  have ha := hlo a
  have ha' := hhi a
  have hb := hlo b
  have hb' := hhi b
  generalize (2 : Int) ^ w = P at *
  rcases hd with ⟨h, he⟩ | ⟨h, h', he⟩ | ⟨h, he⟩ <;> rw [he]
  · have h1 : ¬ a.toInt - b.toInt + P < 0 := by omega
    have h2 : a.toInt < b.toInt := by omega
    have h3 : a.toInt - b.toInt + P ≠ a.toInt - b.toInt := by omega
    simp [h1, h2, h3]
  · simp
  · have h1 : a.toInt - b.toInt - P < 0 := by omega
    have h2 : ¬ a.toInt < b.toInt := by omega
    have h3 : a.toInt - b.toInt - P ≠ a.toInt - b.toInt := by omega
    simp [h1, h2, h3]

/-! ### The outputs as facts about sums

The natural and the integer sum of the inputs decide every output: the carry says whether the
natural sum reaches `2 ^ w`, and sign and overflow together whether the integer sum is negative. -/

section Sums

variable (a b : BitVec w) (c : Bool)

theorem toNat_addc : (addc a b c).toNat = (a.toNat + b.toNat + c.toNat) % 2 ^ w := by
  simp [addc, BitVec.toNat_add, BitVec.toNat_ofNat]

theorem toInt_addc : (addc a b c).toInt = (a.toInt + b.toInt + c.toNat).bmod (2 ^ w) := by
  have hc : (BitVec.ofNat w c.toNat).toInt = (c.toNat : Int).bmod (2 ^ w) := by
    rw [BitVec.toInt_ofNat']
  rw [addc, BitVec.toInt_add, BitVec.toInt_add, hc, Int.bmod_add_bmod, Int.add_bmod_bmod]

theorem addc_beq_zero :
    (addc a b c == 0#w) = decide ((a.toNat + b.toNat + c.toNat) % 2 ^ w = 0) := by
  rw [← toNat_addc, Bool.eq_iff_iff, beq_iff_eq, decide_eq_true_iff, ← BitVec.toNat_inj]
  simp

/-- The integer sum is in range of `bmod_cases`. -/
theorem sum_bounds (hw : 0 < w) :
    -2 ^ w ≤ a.toInt + b.toInt + c.toNat ∧ a.toInt + b.toInt + c.toNat < 2 ^ w := by
  have ha := BitVec.le_two_mul_toInt (x := a)
  have ha' := BitVec.two_mul_toInt_lt (x := a)
  have hb := BitVec.le_two_mul_toInt (x := b)
  have hb' := BitVec.two_mul_toInt_lt (x := b)
  have hc : c.toNat ≤ 1 := Bool.toNat_le c
  have hpow : (2 : Int) ^ w = 2 * 2 ^ (w - 1) := by
    rw [← Int.pow_succ', Nat.sub_one_add_one hw.ne']
  rw [hpow] at ha ha' hb hb' ⊢
  constructor <;> omega

theorem overflow_eq_range (hw : 0 < w) :
    overflow a b c = decide (¬ (-2 ^ (w - 1) ≤ a.toInt + b.toInt + c.toNat ∧
      a.toInt + b.toInt + c.toNat < 2 ^ (w - 1))) := by
  obtain ⟨h₁, h₂⟩ := sum_bounds a b c hw
  have hpow : (2 : Int) ^ w = 2 * 2 ^ (w - 1) := by
    rw [← Int.pow_succ', Nat.sub_one_add_one hw.ne']
  rw [overflow, toInt_addc]
  refine decide_eq_decide.mpr ?_
  have hd := bmod_cases _ h₁ h₂
  rw [hpow] at h₁ h₂ hd
  omega

/-- Sign and overflow differ exactly when the integer sum is negative. -/
theorem msb_ne_overflow (hw : 0 < w) :
    ((addc a b c).msb != overflow a b c) = decide (a.toInt + b.toInt + c.toNat < 0) := by
  obtain ⟨h₁, h₂⟩ := sum_bounds a b c hw
  rw [overflow, BitVec.msb_eq_toInt, toInt_addc]
  have hd := bmod_cases _ h₁ h₂
  have hpos : (0 : Int) < 2 ^ w := Int.pow_pos (by decide)
  generalize (2 : Int) ^ w = P at *
  generalize a.toInt + b.toInt + c.toNat = d at *
  rcases hd with ⟨h, he⟩ | ⟨h, h', he⟩ | ⟨h, he⟩ <;> rw [he]
  · simp [show ¬ d + P < 0 by omega, show d < 0 by omega, show d + P ≠ d by omega]
  · simp
  · simp [show d - P < 0 by omega, show ¬ d < 0 by omega, show d - P ≠ d by omega]

/-- The result is zero or the integer sum negative exactly when the integer sum is not positive. -/
theorem zero_or_neg (hw : 0 < w) :
    ((a.toNat + b.toNat + c.toNat) % 2 ^ w = 0 ∨ a.toInt + b.toInt + c.toNat < 0)
      ↔ a.toInt + b.toInt + c.toNat ≤ 0 := by
  obtain ⟨h₁, h₂⟩ := sum_bounds a b c hw
  have hz : (a.toNat + b.toNat + c.toNat) % 2 ^ w = 0 ↔
      (a.toInt + b.toInt + c.toNat).bmod (2 ^ w) = 0 := by
    rw [← toInt_addc, ← toNat_addc, ← BitVec.toInt_zero, BitVec.toInt_inj, ← BitVec.toNat_inj]
    simp
  have hd := bmod_cases _ h₁ h₂
  rw [hz]
  have hpos : (0 : Int) < 2 ^ w := Int.pow_pos (by decide)
  generalize (2 : Int) ^ w = P at *
  generalize a.toInt + b.toInt + c.toNat = d at *
  omega

/-- No carry or a zero result: the natural sum is at most `2 ^ w`. -/
theorem not_carry_or_zero :
    (a.toNat + b.toNat + c.toNat < 2 ^ w ∨ (a.toNat + b.toNat + c.toNat) % 2 ^ w = 0)
      ↔ a.toNat + b.toNat + c.toNat ≤ 2 ^ w := by
  have ha := a.isLt
  have hb := b.isLt
  have hc : c.toNat ≤ 1 := Bool.toNat_le c
  generalize hS : a.toNat + b.toNat + c.toNat = S
  constructor
  · rintro (h | h)
    · exact h.le
    · -- a multiple of `2 ^ w` below twice it
      obtain ⟨q, hq⟩ := Nat.dvd_of_mod_eq_zero h
      have hq1 : q < 2 := by
        by_contra hge
        have : 2 ^ w * 2 ≤ 2 ^ w * q := Nat.mul_le_mul_left _ (Nat.not_lt.mp hge)
        omega
      interval_cases q <;> omega
  · intro h
    rcases h.lt_or_eq with h | h
    · exact .inl h
    · exact .inr (by rw [h, Nat.mod_self])

end Sums

end Quantum
