import Quantum.A64.Exec
import Quantum.Lib.Lanes

/-!
# Vector instructions, lane by lane

`execVec` and `execVecShift` build their result by recursion over the lanes.  Here it is given by its lanes
(`ofLanes`), for every lane width that divides the vector.
-/

namespace Quantum.A64

variable {k : Nat}

/-- A bit that lies in lane `n`. -/
theorem div_eq_of_lane {n j : Nat} (h₁ : k * n ≤ j) (h₂ : j < k * (n + 1)) :
    j / k = n ∧ j % k = j - k * n := by
  rw [Nat.mul_succ] at h₂
  obtain ⟨i, rfl⟩ := Nat.exists_eq_add_of_le h₁
  have hi : i < k := by omega
  refine ⟨?_, ?_⟩
  · rw [Nat.mul_add_div (by omega), Nat.div_eq_of_lt hi, Nat.add_zero]
  · rw [Nat.mul_add_mod, Nat.mod_eq_of_lt hi, Nat.add_sub_cancel_left]

theorem getLsbD_mapLanes (f : BitVec k → BitVec k → BitVec k) {n : Nat} (hn : k * n ≤ 128) (a b : BitVec 128)
    (j : Nat) : (mapLanes k f n a b).getLsbD j
      = (decide (j < k * n) && (f (lane k a (j / k)) (lane k b (j / k))).getLsbD (j % k)) := by
  induction n with
  | zero => simp [mapLanes]
  | succ n ih =>
    have hmul : k * (n + 1) = k * n + k := Nat.mul_succ k n
    rw [mapLanes, BitVec.getLsbD_or, ih (by omega), getLsbD_bitField]
    rcases Nat.lt_or_ge j (k * n) with hlt | hge
    · have hout : ¬ k * n ≤ j := by omega
      have hin : j < k * (n + 1) := by omega
      simp [hlt, hout, hin]
    · have hout : ¬ j < k * n := by omega
      by_cases hin : j < k * (n + 1)
      · obtain ⟨hdiv, hmod⟩ := div_eq_of_lane hge hin
        have hlt : j < 128 := by omega
        have hk : j - k * n < k := by omega
        simp [hout, hin, hge, hlt, hdiv, hmod, hk, lane]
      · have hk : ¬ j - k * n < k := by omega
        simp [hout, hin, BitVec.getLsbD_of_ge _ _ (Nat.not_lt.mp hk)]

/-- A lane-wise operation on all lanes. -/
theorem mapLanes_eq (hk : k ∣ 128) (f : BitVec k → BitVec k → BitVec k) (a b : BitVec 128) :
    mapLanes k f (128 / k) a b = ofLanes 128 fun i => f (lane k a i) (lane k b i) := by
  have hall : k * (128 / k) = 128 := Nat.mul_div_cancel' hk
  refine BitVec.eq_of_getLsbD_eq fun j hj => ?_
  rw [getLsbD_mapLanes f hall.le, getLsbD_ofLanes, hall]

theorem getLsbD_zipLanes (start : Nat) {n : Nat} (hn : k * (2 * n) ≤ 128) (a b : BitVec 128) (j : Nat) :
    (zipLanes k start n a b).getLsbD j = (decide (j < k * (2 * n)) &&
      (lane k (if j / k % 2 = 0 then a else b) (start + j / k / 2)).getLsbD (j % k)) := by
  induction n with
  | zero => simp [zipLanes]
  | succ n ih =>
    have hmul₁ : k * (2 * n + 1) = k * (2 * n) + k := Nat.mul_succ k _
    have hmul₂ : k * (2 * (n + 1)) = k * (2 * n + 1) + k := Nat.mul_succ k _
    rw [zipLanes, BitVec.getLsbD_or, BitVec.getLsbD_or, ih (by omega), getLsbD_bitField, getLsbD_bitField]
    rcases Nat.lt_or_ge j (k * (2 * n)) with hlt | hge
    · have hout₁ : ¬ k * (2 * n) ≤ j := by omega
      have hout₂ : ¬ k * (2 * n + 1) ≤ j := by omega
      have hin : j < k * (2 * (n + 1)) := by omega
      simp [hlt, hout₁, hout₂, hin]
    · have hout : ¬ j < k * (2 * n) := by omega
      rcases Nat.lt_or_ge j (k * (2 * n + 1)) with hfst | hsnd
      · obtain ⟨hdiv, hmod⟩ := div_eq_of_lane hge hfst
        have hlt : j < 128 := by omega
        have hk : j - k * (2 * n) < k := by omega
        have hin : j < k * (2 * (n + 1)) := by omega
        have hno : ¬ k * (2 * n + 1) ≤ j := by omega
        have heven : 2 * n % 2 = 0 := by omega
        have hhalf : 2 * n / 2 = n := by omega
        simp [hout, hge, hlt, hdiv, hmod, hk, hin, hno, lane]
      · by_cases hin : j < k * (2 * (n + 1))
        · obtain ⟨hdiv, hmod⟩ := div_eq_of_lane hsnd hin
          have hlt : j < 128 := by omega
          have hk : j - k * (2 * n + 1) < k := by omega
          have hno : ¬ j - k * (2 * n) < k := by omega
          have hodd : (2 * n + 1) % 2 ≠ 0 := by omega
          have hhalf : (2 * n + 1) / 2 = n := by omega
          simp [hout, hsnd, hlt, hdiv, hmod, hk, hin, hhalf, lane,
            BitVec.getLsbD_of_ge _ _ (Nat.not_lt.mp hno)]
        · have hno₁ : ¬ j - k * (2 * n) < k := by omega
          have hno₂ : ¬ j - k * (2 * n + 1) < k := by omega
          simp [hout, hin, BitVec.getLsbD_of_ge _ _ (Nat.not_lt.mp hno₁),
            BitVec.getLsbD_of_ge _ _ (Nat.not_lt.mp hno₂)]

/-- The interleaving of all lanes from `start` up. -/
theorem zipLanes_eq (hk : k ∣ 64) (start : Nat) (a b : BitVec 128) :
    zipLanes k start (64 / k) a b
      = ofLanes 128 fun i => lane k (if i % 2 = 0 then a else b) (start + i / 2) := by
  have hall : k * (2 * (64 / k)) = 128 := by
    rw [Nat.mul_left_comm, Nat.mul_div_cancel' hk]
  refine BitVec.eq_of_getLsbD_eq fun j hj => ?_
  rw [getLsbD_zipLanes start hall.le, getLsbD_ofLanes, hall]

theorem getLsbD_setLane {i : Nat} (hi : k * i + k ≤ 128) (old : BitVec 128) (val : BitVec k) (j : Nat) :
    (setLane k i old val).getLsbD j
      = if k * i ≤ j ∧ j < k * i + k then val.getLsbD (j - k * i) else old.getLsbD j := by
  rw [setLane, BitVec.getLsbD_or, BitVec.getLsbD_and, BitVec.getLsbD_not, getLsbD_bitField, getLsbD_bitField]
  by_cases hj : k * i ≤ j ∧ j < k * i + k
  · have hlt : j < 128 := by omega
    have hk : j - k * i < k := by omega
    simp [hj, hlt, hk]
  · rw [if_neg hj]
    by_cases hlt : j < 128
    · rcases Nat.lt_or_ge j (k * i) with hlo | hge
      · have hno : ¬ k * i ≤ j := by omega
        simp [hlt, hno]
      · have hno : k ≤ j - k * i := by omega
        simp [hlt, hno]
    · simp [hlt, BitVec.getLsbD_of_ge _ _ (Nat.not_lt.mp hlt)]

/-- The lanes after one of them is replaced. -/
theorem lane_setLane {i : Nat} (hi : k * i + k ≤ 128) (q : Nat) (old : BitVec 128) (val : BitVec k) :
    lane k (setLane k i old val) q = if q = i then val else lane k old q := by
  refine BitVec.eq_of_getLsbD_eq fun j hj => ?_
  rw [getLsbD_lane, getLsbD_setLane hi]
  by_cases hqi : q = i
  · subst hqi
    simp [hj]
  · have hout : ¬ (k * i ≤ k * q + j ∧ k * q + j < k * i + k) := by
      intro ⟨h₁, h₂⟩
      rcases Nat.lt_or_gt_of_ne hqi with hlt | hgt
      · have := Nat.mul_le_mul_left k (Nat.succ_le_of_lt hlt)
        rw [Nat.mul_succ] at this
        omega
      · have := Nat.mul_le_mul_left k (Nat.succ_le_of_lt hgt)
        rw [Nat.mul_succ] at this
        omega
    rw [if_neg hout, if_neg hqi, getLsbD_lane]

/-- `ADDV` of eight bytes with a bit of their own each. -/
theorem sumBytes_bits {v : BitVec 128} {sign : Nat → Bool}
    (h : ∀ i, i < 8 → lane 8 v i = if sign i then 1#8 <<< i else 0) :
    sumBytes 8 v = ofLanes 8 fun i => BitVec.ofBool (sign i) := by
  have hsum : ∀ n, n ≤ 8 → sumBytes n v = ofLanes 8 fun i => BitVec.ofBool (decide (i < n) && sign i) := by
    intro n hn
    induction n with
    | zero =>
      refine BitVec.eq_of_getLsbD_eq fun j _ => ?_
      simp [sumBytes]
    | succ n ih =>
      have hlane : v.extractLsb' (8 * n) 8 = if sign n then 1#8 <<< n else 0 := h n (by omega)
      have hbit : ∀ j, j < 8 → (if sign n then 1#8 <<< n else 0).getLsbD j = (decide (j = n) && sign n) := by
        intro j hj
        split_ifs with hs
        · rw [hs, BitVec.getLsbD_shiftLeft, BitVec.getLsbD_one]
          by_cases hjn : j = n
          · simp [hjn]
            omega
          · simp [hjn]
            omega
        · simp [hs]
      rw [sumBytes, ih (by omega), hlane, BitVec.add_eq_or_of_and_eq_zero]
      · refine BitVec.eq_of_getLsbD_eq fun j hj => ?_
        rw [BitVec.getLsbD_or, getLsbD_ofLanes_ofBool, getLsbD_ofLanes_ofBool, hbit j hj]
        rcases Nat.lt_trichotomy j n with hlt | rfl | hgt
        · have hne : j ≠ n := by omega
          have hlt' : j < n + 1 := by omega
          simp [hlt, hne, hlt']
        · simp [hj]
        · have hne : j ≠ n := by omega
          have hlt : ¬ j < n := by omega
          have hlt' : ¬ j < n + 1 := by omega
          simp [hlt, hne, hlt']
      · refine BitVec.eq_of_getLsbD_eq fun j hj => ?_
        rw [BitVec.getLsbD_and, getLsbD_ofLanes_ofBool, hbit j hj]
        by_cases hjn : j = n
        · simp [hjn]
        · simp [hjn]
  rw [hsum 8 (Nat.le_refl 8)]
  refine BitVec.eq_of_getLsbD_eq fun j hj => ?_
  rw [getLsbD_ofLanes_ofBool, getLsbD_ofLanes_ofBool]
  simp [hj]

/-- Two bytes inserted next to each other. -/
theorem bfm32_bytes (lo hi : BitVec 8) :
    (bfm32 24 7 ((lo.setWidth 64).setWidth 32) ((hi.setWidth 64).setWidth 32)).setWidth 64
      = (hi ++ lo).setWidth 64 := by
  have hmask : ∀ j, j < 32 → ((255#32 <<< 8).getLsbD j) = decide (8 ≤ j ∧ j < 16) := by
    decide
  refine BitVec.eq_of_getLsbD_eq fun j hj => ?_
  show (((lo.setWidth 64).setWidth 32 &&& ~~~ (255#32 <<< 8)) |||
    (((hi.setWidth 64).setWidth 32 <<< 8) &&& (255#32 <<< 8)) |>.setWidth 64).getLsbD j = _
  rw [BitVec.getLsbD_setWidth, BitVec.getLsbD_setWidth, BitVec.getLsbD_append, BitVec.getLsbD_or,
    BitVec.getLsbD_and, BitVec.getLsbD_and, BitVec.getLsbD_not]
  by_cases h32 : j < 32
  · rw [hmask j h32, BitVec.getLsbD_shiftLeft]
    by_cases h8 : j < 8
    · have hno : ¬ 8 ≤ j := by omega
      simp [h8, hno, hj, h32]
    · by_cases h16 : j < 16
      · have hge : 8 ≤ j := by omega
        have hsub : j - 8 < 32 := by omega
        rw [decide_eq_true (show 8 ≤ j ∧ j < 16 from ⟨hge, h16⟩), BitVec.getLsbD_setWidth,
          BitVec.getLsbD_setWidth]
        simp [h8, h32, hsub]
      · have hlo : lo.getLsbD j = false := BitVec.getLsbD_of_ge _ _ (by omega)
        have hhi : hi.getLsbD (j - 8) = false := BitVec.getLsbD_of_ge _ _ (by omega)
        simp [h8, h16, hlo, hhi]
  · have h8 : ¬ j < 8 := by omega
    have hhi : hi.getLsbD (j - 8) = false := BitVec.getLsbD_of_ge _ _ (by omega)
    simp [h8, h32, hhi]

end Quantum.A64
