import Mathlib.Data.BitVec

/-!
# Vectors as lanes

A bit vector read as a sequence of lanes of `k` bits, the lowest first.  `lane k v i` is one of them and
`ofLanes w f` the vector of `w` bits with the lanes `f`; when `k` divides `w` the lanes determine the vector
(`eq_ofLanes`).
-/

namespace Quantum

variable {w k : Nat}

/-- Lane `i` of `k` bits. -/
def lane (k : Nat) (v : BitVec w) (i : Nat) : BitVec k :=
  v.extractLsb' (k * i) k

/-- The vector of `w` bits with the lanes `f`: bit `j` is bit `j % k` of lane `j / k`. -/
def ofLanes (w : Nat) {k : Nat} (f : Nat → BitVec k) : BitVec w :=
  (BitVec.iunfoldr (fun (j : Fin w) (_ : Unit) => ((), (f (j / k)).getLsbD (j % k))) ()).2

@[simp]
theorem getLsbD_lane (v : BitVec w) (i j : Nat) :
    (lane k v i).getLsbD j = (decide (j < k) && v.getLsbD (k * i + j)) :=
  BitVec.getLsbD_extractLsb' ..

@[simp]
theorem getLsbD_ofLanes (f : Nat → BitVec k) (j : Nat) :
    (ofLanes w f).getLsbD j = (decide (j < w) && (f (j / k)).getLsbD (j % k)) := by
  by_cases hj : j < w
  · have hbit := BitVec.iunfoldr_getLsbD (f := fun (j : Fin w) (_ : Unit) =>
      ((), (f (j / k)).getLsbD (j % k))) (fun _ => ()) ⟨j, hj⟩ fun _ => rfl
    rw [ofLanes, hbit, decide_eq_true hj, Bool.true_and]
  · rw [BitVec.getLsbD_of_ge _ _ (Nat.not_lt.mp hj)]
    simp [hj]

theorem lane_ofLanes (f : Nat → BitVec k) {i : Nat} (hi : k * i + k ≤ w) : lane k (ofLanes w f) i = f i := by
  refine BitVec.eq_of_getLsbD_eq fun j hj => ?_
  have hdiv : (k * i + j) / k = i := by
    rw [Nat.mul_add_div (by omega), Nat.div_eq_of_lt hj, Nat.add_zero]
  have hmod : (k * i + j) % k = j := by
    rw [Nat.mul_add_mod, Nat.mod_eq_of_lt hj]
  have hlt : k * i + j < w := by omega
  rw [getLsbD_lane, getLsbD_ofLanes, hdiv, hmod]
  simp [hj, hlt]

/-- A bit of a vector is a bit of one of its lanes. -/
theorem getLsbD_eq_lane (hk : 0 < k) (v : BitVec w) (j : Nat) :
    v.getLsbD j = (lane k v (j / k)).getLsbD (j % k) := by
  rw [getLsbD_lane, Nat.div_add_mod]
  simp [Nat.mod_lt j hk]

/-- The lanes determine the vector. -/
theorem eq_ofLanes (hk : 0 < k) (hw : k ∣ w) {v : BitVec w} {f : Nat → BitVec k}
    (h : ∀ i, i < w / k → lane k v i = f i) : v = ofLanes w f := by
  refine BitVec.eq_of_getLsbD_eq fun j hj => ?_
  have hi : j / k < w / k := by
    rw [Nat.div_lt_iff_lt_mul hk, Nat.div_mul_cancel hw]
    exact hj
  rw [getLsbD_eq_lane hk v j, h _ hi, getLsbD_ofLanes]
  simp [hj]

theorem lane_and (a b : BitVec w) (i : Nat) : lane k (a &&& b) i = lane k a i &&& lane k b i := by
  refine BitVec.eq_of_getLsbD_eq fun j hj => ?_
  rw [BitVec.getLsbD_and, getLsbD_lane, getLsbD_lane, getLsbD_lane, BitVec.getLsbD_and]
  simp [hj]

/-- Lanes of one bit. -/
theorem getLsbD_ofLanes_ofBool (p : Nat → Bool) (j : Nat) :
    (ofLanes w fun i => BitVec.ofBool (p i)).getLsbD j = (decide (j < w) && p j) := by
  rw [getLsbD_ofLanes, Nat.mod_one, Nat.div_one]
  simp

end Quantum
