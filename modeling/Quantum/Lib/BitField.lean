import Mathlib.Data.BitVec

/-!
# Fields of a machine word

`bitField lsb v` is the value `v` placed in a `w`-bit word with its low bit at position `lsb`, the
way an instruction encoder writes `(v as u32) << lsb`.  An encoder ORs a constant with a few such
fields; a decoder takes `extractLsb'` slices of the result.  The lemmas below evaluate such a slice:
on the field itself it gives the value back (`extractLsb'_bitField_self`), and on a field that it
does not meet it gives zero (`extractLsb'_bitField_of_disjoint`).
-/

namespace Quantum

variable {w n : Nat}

/-- The `n`-bit value `v` placed in a `w`-bit word from bit `lsb` up. -/
def bitField (lsb : Nat) (v : BitVec n) : BitVec w :=
  v.setWidth w <<< lsb

/-- A field with a literal value is a literal. -/
theorem bitField_ofNat (lsb k : Nat) :
    (bitField lsb (BitVec.ofNat n k) : BitVec w) = (BitVec.ofNat n k).setWidth w <<< lsb :=
  rfl

theorem getLsbD_bitField (lsb : Nat) (v : BitVec n) (i : Nat) :
    (bitField lsb v : BitVec w).getLsbD i
      = (decide (i < w) && decide (lsb ≤ i) && v.getLsbD (i - lsb)) := by
  rw [bitField, BitVec.getLsbD_shiftLeft, BitVec.getLsbD_setWidth]
  by_cases hi : i < w
  · have hi' : i - lsb < w := by omega
    by_cases hl : lsb ≤ i
    · simp [hi, hi', hl]
    · simp [hi, hl, Nat.not_le.mp hl]
  · simp [hi]

theorem extractLsb'_bitField_self (lsb : Nat) (v : BitVec n) (h : lsb + n ≤ w) :
    (bitField lsb v : BitVec w).extractLsb' lsb n = v := by
  refine BitVec.eq_of_getLsbD_eq fun i hi => ?_
  rw [BitVec.getLsbD_extractLsb', getLsbD_bitField]
  simp [hi, show lsb + i < w by omega]

theorem extractLsb'_bitField_of_disjoint (lsb : Nat) (v : BitVec n) (a k : Nat)
    (h : a + k ≤ lsb ∨ lsb + n ≤ a) : (bitField lsb v : BitVec w).extractLsb' a k = 0#k := by
  refine BitVec.eq_of_getLsbD_eq fun i hi => ?_
  rw [BitVec.getLsbD_extractLsb', getLsbD_bitField, BitVec.getLsbD_zero]
  rcases h with h | h
  · simp [show ¬ lsb ≤ a + i by omega]
  · rw [BitVec.getLsbD_of_ge v (a + i - lsb) (by omega), Bool.and_false, Bool.and_false]

/-- A mask that keeps all bits of a field keeps the field. -/
theorem bitField_and_of_allOnes (lsb : Nat) (v : BitVec n) (m : BitVec w)
    (h : m.extractLsb' lsb n = BitVec.allOnes n) : (bitField lsb v : BitVec w) &&& m = bitField lsb v := by
  refine BitVec.eq_of_getLsbD_eq fun i hi => ?_
  rw [BitVec.getLsbD_and, getLsbD_bitField]
  by_cases hl : lsb ≤ i
  · by_cases hn : i - lsb < n
    · have hbit := congrArg (fun b => b.getLsbD (i - lsb)) h
      simp only [BitVec.getLsbD_extractLsb', hn, decide_true, Bool.true_and,
        BitVec.getLsbD_allOnes] at hbit
      rw [show lsb + (i - lsb) = i by omega] at hbit
      rw [hbit, Bool.and_true]
    · rw [BitVec.getLsbD_of_ge v _ (by omega)]
      simp
  · simp [hl]

/-- A value that fits in `n` bits is the same field at either width. -/
theorem bitField_setWidth (lsb : Nat) (v : BitVec w) (h : v.toNat < 2 ^ n) :
    (bitField lsb (v.setWidth n) : BitVec w) = v <<< lsb := by
  rw [bitField]
  congr 1
  refine BitVec.eq_of_toNat_eq ?_
  rw [BitVec.toNat_setWidth, BitVec.toNat_setWidth, Nat.mod_eq_of_lt h, Nat.mod_eq_of_lt v.isLt]

end Quantum
